import Script.Proofs.Evaluation.Recast
import Script.Proofs.Parsing.SentenceRelabel
import Script.Proofs.Session.Acceptance

/-! Lines are labels. A unit whose tokens have other lines is refused for the same faults or runs
in the same way, and each line that is reported is the other one. -/

namespace Script

namespace TokenStream

variable {stream : TokenStream} {rest : List Token} {notes : List Complaint} {complaint : Complaint}

theorem program_accepted {statements : List Stmt} {moved : Moved false rest stream.pending}
    (outcome : Rule.declarations false stream.pending = .accepted statements rest moved notes) :
    stream.program.1 = stream.conclude statements notes := by
  unfold program
  rw [outcome]

theorem program_stopped {within : complaint.remaining <:+ stream.pending}
    (outcome : Rule.declarations false stream.pending = .stopped complaint within notes) :
    stream.program.1 = .error ((notes ++ [complaint]).map stream.blame) := by
  unfold program
  rw [outcome]

/-- The complaint about what an expression leaves. -/
def tokensLeft (rest : List Token) : List Complaint :=
  if rest.isEmpty then [] else [Complaint.mk (.expected .endOfExpression) rest]

theorem expression_accepted {result : Expr} {moved : Moved true rest stream.pending}
    (outcome : Rule.expression stream.pending = .accepted result rest moved notes) :
    stream.expression.1 = stream.conclude result (notes ++ tokensLeft rest) := by
  unfold expression
  rw [outcome]
  rfl

theorem expression_stopped {within : complaint.remaining <:+ stream.pending}
    (outcome : Rule.expression stream.pending = .stopped complaint within notes) :
    stream.expression.1 = .error ((notes ++ [complaint]).map stream.blame) := by
  unfold expression
  rw [outcome]

end TokenStream

namespace Recast

variable (change : Recast) {α : Type}

def fault (error : ParseError) : ParseError := ⟨error.cause, change.token error.token⟩

/-- What parsing gives, with the lines changed in the result or in the faults. -/
def parsed (image : α → α) : Except (List ParseError) α → Except (List ParseError) α
  | .ok result => .ok (image result)
  | .error faults => .error (faults.map change.fault)

def stream (stream : TokenStream) : TokenStream where
  pending := stream.pending.map change.token
  last := change.token stream.last
  pending_open := by
    intro token member
    obtain ⟨original, within, rfl⟩ := List.mem_map.mp member
    exact stream.pending_open original within
  last_closes := stream.last_closes

theorem blame_stream (stream : TokenStream) (complaint : Complaint) :
    (change.stream stream).blame (change.complaint complaint) =
      change.fault (stream.blame complaint) := by
  obtain ⟨cause, remaining⟩ := complaint
  cases remaining <;> rfl

theorem blames_stream (stream : TokenStream) (complaints : List Complaint) :
    (complaints.map change.complaint).map (change.stream stream).blame =
      (complaints.map stream.blame).map change.fault := by
  simp only [List.map_map, Function.comp_def, blame_stream]

theorem stops_stream (stream : TokenStream) (notes : List Complaint) (complaint : Complaint) :
    (notes.map change.complaint ++ [change.complaint complaint]).map (change.stream stream).blame =
      ((notes ++ [complaint]).map stream.blame).map change.fault := by
  have joined : notes.map change.complaint ++ [change.complaint complaint] =
      (notes ++ [complaint]).map change.complaint := by
    rw [List.map_append, List.map_singleton]
  rw [joined, blames_stream]

theorem conclude_stream (stream : TokenStream) (image : α → α) (result : α)
    (complaints : List Complaint) :
    (change.stream stream).conclude (image result) (complaints.map change.complaint) =
      change.parsed image (stream.conclude result complaints) := by
  cases complaints with
  | nil => rfl
  | cons first others => exact congrArg Except.error (change.blames_stream stream (first :: others))

theorem missingLast_map {tokens : List Token} (some : tokens ≠ []) :
    TokenStream.missingLast (tokens.map change.token) =
      change.token (TokenStream.missingLast tokens) := by
  obtain ⟨last, found⟩ := Option.isSome_iff_exists.mp (List.getLast?_isSome.mpr some)
  simp only [TokenStream.missingLast, List.getLast?_map, found, Option.map_some, Option.getD_some]
  rfl

theorem ofList_map {tokens : List Token} (some : tokens ≠ []) :
    TokenStream.ofList (tokens.map change.token) = change.stream (.ofList tokens) := by
  apply TokenStream.eq_of_parts
  · exact List.takeWhile_map
  · show ((tokens.map change.token).find? _).getD _ = change.token ((tokens.find? _).getD _)
    rw [List.find?_map, change.missingLast_map some]
    show ((tokens.find? (·.is .endOfText)).map change.token).getD _ = _
    cases tokens.find? (·.is .endOfText) <;> rfl

theorem program_stream (line : Nat → Nat) (stream : TokenStream) :
    ((relabel line).stream stream).program.1 =
      (relabel line).parsed (relabel line).stmts stream.program.1 := by
  have relabels : Outcome.Relabels (relabel line) (relabel line).stmts
      (Rule.declarations false stream.pending)
      (Rule.declarations false ((relabel line).stream stream).pending) :=
    (Rule.statements_relabel line).2.2.1 false stream.pending
  generalize first : Rule.declarations false stream.pending = outcome at relabels
  generalize second : Rule.declarations false ((relabel line).stream stream).pending = other
    at relabels
  cases relabels with
  | accepted =>
    rw [TokenStream.program_accepted first, TokenStream.program_accepted second]
    exact (relabel line).conclude_stream stream _ _ _
  | stopped =>
    rw [TokenStream.program_stopped first, TokenStream.program_stopped second]
    exact congrArg Except.error ((relabel line).stops_stream stream _ _)

theorem tokensLeft_map (rest : List Token) : TokenStream.tokensLeft (rest.map change.token) =
    (TokenStream.tokensLeft rest).map change.complaint := by
  cases rest <;> rfl

theorem expression_stream (stream : TokenStream) :
    (change.stream stream).expression.1 = change.parsed change.expr stream.expression.1 := by
  have relabels : Outcome.Relabels change change.expr (Rule.expression stream.pending)
      (Rule.expression (change.stream stream).pending) :=
    Rule.expression_relabel change stream.pending
  generalize first : Rule.expression stream.pending = outcome at relabels
  generalize second : Rule.expression (change.stream stream).pending = other at relabels
  cases relabels with
  | accepted =>
    rw [TokenStream.expression_accepted first, TokenStream.expression_accepted second,
      tokensLeft_map, ← List.map_append]
    exact change.conclude_stream stream change.expr _ _
  | stopped =>
    rw [TokenStream.expression_stopped first, TokenStream.expression_stopped second]
    exact congrArg Except.error (change.stops_stream stream _ _)

def lexError (error : LexError) : LexError := { error with line := change.line error.line }

def item : Except LexError Token → Except LexError Token
  | .ok token => .ok (change.token token)
  | .error error => .error (change.lexError error)

def refusal (refusal : Refusal) : Refusal :=
  ⟨refusal.lexical.map change.lexError, refusal.grammatical.map change.fault⟩

def ending (image : α → α) : Ending α → Ending α
  | .value value => .value (image value)
  | .failed failure => .failed (change.failure failure)
  | .refused refusal => .refused (change.refusal refusal)
  | .exhausted => .exhausted

/-- What a unit does to the machine, with the lines changed in what it reports and leaves. -/
def ran (image : α → α) (ran : Ending α × Machine) : Ending α × Machine :=
  (change.ending image ran.1, change.machine ran.2)

@[simp] theorem ran_output (image : α → α) (ran : Ending α × Machine) :
    (change.ran image ran).2.output = ran.2.output := rfl

theorem good_item (items : List (Except LexError Token)) :
    Token.good (items.map change.item) = (Token.good items).map change.token := by
  induction items with
  | nil => rfl
  | cons first rest ih =>
    cases first with
    | ok token => exact congrArg (change.token token :: ·) ih
    | error error => exact ih

theorem faults_item (items : List (Except LexError Token)) :
    Token.faults (items.map change.item) = (Token.faults items).map change.lexError := by
  induction items with
  | nil => rfl
  | cons first rest ih =>
    cases first with
    | ok token => exact ih
    | error error => exact congrArg (change.lexError error :: ·) ih

theorem perform_follows {image : α → α} {run run' : Eval α}
    (follows : change.Follows image run run') (machine : Machine) :
    (change.machine machine).perform run' = change.ran image (machine.perform run) := by
  unfold Machine.perform
  rw [follows machine]
  cases run machine <;> rfl

end Recast

/-- What was scanned as a program. -/
def Source.scannedProgram (items : List (Except LexError Token)) : Except Refusal (List Stmt) :=
  accept (Token.faults items) (TokenStream.ofList (Token.good items)).program.1

def Source.scannedExpression (items : List (Except LexError Token)) : Except Refusal Expr :=
  accept (Token.faults items) (TokenStream.ofList (Token.good items)).expression.1

namespace Machine

/-- Runs a computation for what is accepted. -/
def performAccepted {α β : Type} (machine : Machine) (run : α → Eval β) :
    Except Refusal α → Ending β × Machine
  | .ok found => machine.perform (run found)
  | .error refusal => (.refused refusal, machine)

theorem run_eq (machine : Machine) (source : Source) :
    machine.run source = machine.performAccepted (interpret stepLimit) source.program? := by
  unfold run performAccepted
  cases source.program? <;> rfl

theorem evaluate_eq (machine : Machine) (source : Source) : machine.evaluate source =
    machine.performAccepted (Script.evaluate stepLimit) source.expression? := by
  unfold evaluate performAccepted
  cases source.expression? <;> rfl

def runScanned (machine : Machine) (items : List (Except LexError Token)) :
    Ending Unit × Machine :=
  machine.performAccepted (interpret stepLimit) (Source.scannedProgram items)

def evaluateScanned (machine : Machine) (items : List (Except LexError Token)) :
    Ending Value × Machine :=
  machine.performAccepted (Script.evaluate stepLimit) (Source.scannedExpression items)

end Machine

theorem Machine.run_tokens (machine : Machine) (tokens : List Token) :
    machine.run (.tokens tokens) = machine.runScanned (tokens.map .ok) := by
  rw [Machine.run_eq, Machine.runScanned, Source.scannedProgram, Token.good_ok, Token.faults_ok]
  rfl

theorem Machine.evaluate_tokens (machine : Machine) (tokens : List Token) :
    machine.evaluate (.tokens tokens) = machine.evaluateScanned (tokens.map .ok) := by
  rw [Machine.evaluate_eq, Machine.evaluateScanned, Source.scannedExpression, Token.good_ok,
    Token.faults_ok]
  rfl

theorem Machine.run_text (machine : Machine) (text : String) :
    machine.run (.text text) = machine.runScanned (Token.scan text) :=
  machine.run_eq (.text text)

namespace Recast

variable (change : Recast) (line : Nat → Nat) {α : Type}

theorem accept_parsed (lexical : List LexError) (image : α → α)
    (parsed : Except (List ParseError) α) :
    Source.accept (lexical.map change.lexError) (change.parsed image parsed) =
      match Source.accept lexical parsed with
      | .ok result => .ok (image result)
      | .error refusal => .error (change.refusal refusal) := by
  cases parsed with
  | ok result => cases lexical <;> rfl
  | error faults => rfl

theorem performAccepted_follows {β : Type} {image : α → α} {further : β → β} {run : α → Eval β}
    (follows : ∀ found, change.Follows further (run found) (run (image found)))
    (lexical : List LexError) (parsed : Except (List ParseError) α) (machine : Machine) :
    (change.machine machine).performAccepted run
        (Source.accept (lexical.map change.lexError) (change.parsed image parsed)) =
      change.ran further (machine.performAccepted run (Source.accept lexical parsed)) := by
  rw [accept_parsed]
  cases Source.accept lexical parsed with
  | ok found => exact change.perform_follows (follows found) machine
  | error refusal => rfl

/-- Scanned items with other lines run as those with the old ones. -/
theorem runScanned_item {items : List (Except LexError Token)} (some : Token.good items ≠ [])
    (machine : Machine) :
    ((relabel line).machine machine).runScanned (items.map (relabel line).item) =
      (relabel line).ran id (machine.runScanned items) := by
  unfold Machine.runScanned Source.scannedProgram
  rw [good_item, faults_item, ofList_map _ some, program_stream]
  apply performAccepted_follows
  intro program
  exact (relabel line).interpret_machine stepLimit program

theorem evaluateScanned_item {items : List (Except LexError Token)}
    (some : Token.good items ≠ []) (machine : Machine) :
    (change.machine machine).evaluateScanned (items.map change.item) =
      change.ran change.value (machine.evaluateScanned items) := by
  unfold Machine.evaluateScanned Source.scannedExpression
  rw [good_item, faults_item, ofList_map _ some, expression_stream]
  apply performAccepted_follows
  intro expr
  exact change.evaluate_machine stepLimit expr

/-- All lines alike. -/
def unlined : Recast := relabel fun _ => 0

def itemLine : Except LexError Token → Nat
  | .ok token => token.line
  | .error error => error.line

theorem item_comp (later : Nat → Nat) (item : Except LexError Token) :
    (relabel later).item ((relabel line).item item) = (relabel (later ∘ line)).item item := by
  cases item <;> rfl

/-- An item with the line of one that differs in the line alone. -/
theorem item_eq {first second : Except LexError Token}
    (same : unlined.item first = unlined.item second) :
    (relabel fun _ => itemLine second).item first = second := by
  cases first with
  | ok token =>
    cases second with
    | ok other =>
      obtain ⟨kind, lexeme, line⟩ := token
      obtain ⟨kind', lexeme', line'⟩ := other
      cases same
      rfl
    | error error => cases same
  | error error =>
    cases second with
    | ok other => cases same
    | error other =>
      obtain ⟨cause, line⟩ := error
      obtain ⟨cause', line'⟩ := other
      cases same
      rfl

/-- The items with their places as new lines. -/
def numbered (items : List (Except LexError Token)) : List (Except LexError Token) :=
  items.mapIdx fun place => (relabel fun _ => newLine place).item

/-- The lines of some items by their places. -/
def linesOf (items : List (Except LexError Token)) (place : Nat) : Nat :=
  (items[place]?.map itemLine).getD 0

/-- Items that differ in lines alone are one list under two numberings. -/
theorem numbered_merge {first second : List (Except LexError Token)}
    (same : first.map unlined.item = second.map unlined.item) :
    (numbered first).map (relabel (mergeLines (linesOf second))).item = second := by
  apply List.ext_getElem?
  intro place
  have here := congrArg (·[place]?) same
  simp only [List.getElem?_map] at here
  simp only [numbered, List.getElem?_map, List.getElem?_mapIdx]
  cases foundFirst : first[place]? with
  | none =>
    rw [foundFirst] at here
    cases foundSecond : second[place]? with
    | none => rfl
    | some item =>
      rw [foundSecond] at here
      cases here
  | some item =>
    rw [foundFirst] at here
    cases foundSecond : second[place]? with
    | none =>
      rw [foundSecond] at here
      cases here
    | some other =>
      rw [foundSecond] at here
      have line : (mergeLines (linesOf second) ∘ fun _ : Nat => newLine place) =
          fun _ => itemLine other := by
        funext _
        have merged := congrFun (mergeLines_new (linesOf second)) place
        simpa [linesOf, foundSecond] using merged
      simp only [Option.map_some, item_comp, line]
      exact congrArg some (item_eq (Option.some.inj here))

theorem good_numbered {items : List (Except LexError Token)} (some : Token.good items ≠ []) :
    Token.good (numbered items) ≠ [] := by
  intro none
  have merged : (numbered items).map (relabel (mergeLines (linesOf items))).item = items :=
    numbered_merge rfl
  rw [← merged, good_item, none] at some
  exact some rfl

theorem machine_unlined (machine : Machine) :
    unlined.machine ((relabel line).machine machine) = unlined.machine machine :=
  machine_comp line (fun _ => 0) machine

theorem failure_unlined (failure : Failure) :
    unlined.failure ((relabel line).failure failure) = unlined.failure failure :=
  failure_comp line (fun _ => 0) failure

theorem refusal_unlined (refusal : Refusal) :
    unlined.refusal ((relabel line).refusal refusal) = unlined.refusal refusal := by
  simp only [Recast.refusal, List.map_map]
  rfl

theorem ran_unlined (ran : Ending Unit × Machine) :
    unlined.ran id ((relabel line).ran id ran) = unlined.ran id ran := by
  obtain ⟨ending, machine⟩ := ran
  cases ending with
  | value value => simp only [Recast.ran, Recast.ending, machine_unlined, id]
  | failed failure => simp only [Recast.ran, Recast.ending, machine_unlined, failure_unlined]
  | refused refusal => simp only [Recast.ran, Recast.ending, machine_unlined, refusal_unlined]
  | exhausted => simp only [Recast.ran, Recast.ending, machine_unlined]

/-- Items that differ in lines alone run alike: both do as the numbered items do on a machine in
which only old lines stand. -/
theorem runScanned_alike {first second : List (Except LexError Token)}
    (same : first.map unlined.item = second.map unlined.item) (some : Token.good first ≠ [])
    (machine : Machine) :
    (machine.runScanned first).2.output = (machine.runScanned second).2.output ∧
      unlined.ran id (machine.runScanned first) = unlined.ran id (machine.runScanned second) := by
  have numbers {items : List (Except LexError Token)}
      (alike : first.map unlined.item = items.map unlined.item) :
      machine.runScanned items = (relabel (mergeLines (linesOf items))).ran id
        (((relabel oldLine).machine machine).runScanned (numbered first)) := by
    have ran := runScanned_item (mergeLines (linesOf items)) (good_numbered some)
      ((relabel oldLine).machine machine)
    rwa [machine_old, numbered_merge alike] at ran
  rw [numbers rfl, numbers same]
  constructor
  · rw [ran_output, ran_output]
  · rw [ran_unlined, ran_unlined]

end Recast

theorem Token.good_scan_ne_nil (text : String) : Token.good (Token.scan text) ≠ [] := by
  obtain ⟨before, last, same, _⟩ := Scan.pieces_end 1 text.toList
  rw [Token.scan, same, List.map_append, Token.good_append]
  exact List.append_ne_nil_of_right_ne_nil _ (List.cons_ne_nil _ _)

open Recast

/-- Lines are labels. Tokens with other lines are parsed, as a program or as an expression, to the
same tree or to the same faults in the same order, and they run in the same way, with the other
lines in what is reported and left and with the same output. So texts whose items differ in lines
alone print the same. -/
theorem lines_are_labels :
    (∀ line tokens, tokens ≠ [] →
      (TokenStream.ofList (tokens.map (relabel line).token)).program.1 =
        (relabel line).parsed (relabel line).stmts (TokenStream.ofList tokens).program.1 ∧
      (TokenStream.ofList (tokens.map (relabel line).token)).expression.1 =
        (relabel line).parsed (relabel line).expr (TokenStream.ofList tokens).expression.1 ∧
      ∀ machine : Machine,
        ((relabel line).machine machine).run (.tokens (tokens.map (relabel line).token)) =
          (relabel line).ran id (machine.run (.tokens tokens)) ∧
        ((relabel line).machine machine).evaluate (.tokens (tokens.map (relabel line).token)) =
          (relabel line).ran (relabel line).value (machine.evaluate (.tokens tokens))) ∧
    (∀ line error, ((relabel line).fault error).diagnostic =
      .grammatical (line error.token.line) (Diagnostic.locationOf error.token)
        error.cause.message) ∧
    (∀ line steps program machine,
      interpret steps ((relabel line).stmts program) ((relabel line).machine machine) =
        (relabel line).result id (interpret steps program machine)) ∧
    (∀ line steps expr machine,
      evaluate steps ((relabel line).expr expr) ((relabel line).machine machine) =
        (relabel line).result (relabel line).value (evaluate steps expr machine)) ∧
    (∀ line (machine : Machine), ((relabel line).machine machine).output = machine.output ∧
      ∀ value : Value, ((relabel line).value value).text ((relabel line).machine machine).heap =
        value.text machine.heap) ∧
    (∀ line reading output,
      (relabel line).machine (.fresh reading output) = .fresh reading output) ∧
    ∀ first second, (Token.scan first).map unlined.item = (Token.scan second).map unlined.item →
      ∀ machine : Machine,
        (machine.run (.text first)).2.output = (machine.run (.text second)).2.output ∧
        unlined.ran id (machine.run (.text first)) =
          unlined.ran id (machine.run (.text second)) := by
  refine ⟨?_, ?_, ?_, ?_, ?_, ?_, ?_⟩
  · intro line tokens some
    have items : (tokens.map (relabel line).token).map Except.ok =
        (tokens.map Except.ok).map (relabel line).item := by
      simp only [List.map_map]
      rfl
    have good : Token.good (tokens.map .ok) ≠ [] := by rwa [Token.good_ok]
    refine ⟨?_, ?_, ?_⟩
    · rw [ofList_map _ some, program_stream]
    · rw [ofList_map _ some, expression_stream]
    · intro machine
      constructor
      · rw [Machine.run_tokens, Machine.run_tokens, items, runScanned_item line good]
      · rw [Machine.evaluate_tokens, Machine.evaluate_tokens, items, evaluateScanned_item _ good]
  · intro line error
    rfl
  · intro line steps program machine
    exact (relabel line).interpret_machine steps program machine
  · intro line steps expr machine
    exact (relabel line).evaluate_machine steps expr machine
  · intro line machine
    exact ⟨rfl, (relabel line).text_value machine.heap⟩
  · intro line reading output
    exact (relabel line).machine_fresh reading output
  · intro first second same machine
    rw [Machine.run_text, Machine.run_text]
    exact runScanned_alike same (Token.good_scan_ne_nil first) machine

/-- A name that nothing binds, moved down five lines; and a text that prints, with a line end and a
comment in it. -/
theorem lines_are_labels_of_name :
    let machine := Machine.fresh (fun _ => 0) .unlimited
    (machine.run (.tokens [⟨.plain .identifier, "x", 6⟩, ⟨.plain .semicolon, ";", 6⟩])).1 =
        .failed (.runtime ⟨.undefined "x", 6⟩) ∧
      (machine.run (.text "print // nothing\nnil;")).2.output.written.toList =
        Utf8.encode "nil\n" := by
  intro machine
  obtain ⟨tokens, _, _, _, _, fresh, texts⟩ := lines_are_labels
  constructor
  · let given : List Token := [Tag.identifier.mark "x", Tag.semicolon.mark ";"]
    have failed : machine.run (.tokens given) =
        (.failed (.runtime ⟨.undefined "x", 1⟩), machine) := by
      have unbound : machine.scopes.get? machine.active "x" = none :=
        Machine.get?_fresh (by decide) _ _
      have ended := @interpret_of_unbound machine (Tag.identifier.mark "x") unbound (stepLimit - 2)
      rw [Machine.run, (Source.program?_tokens_eq_ok (by decide)).mpr Grammar.program_name]
      show machine.perform (interpret (stepLimit - 2 + 2) _) = _
      rw [Machine.perform, ended]
      rfl
    have moved := ((tokens (· + 5) given (by simp [given])).2.2 machine).1
    rw [fresh, failed] at moved
    exact congrArg Prod.fst moved
  · have alike : (Token.scan "print nil;").map unlined.item =
        (Token.scan "print // nothing\nnil;").map unlined.item := by
      simp [Token.scan, Scan.pieces_eq, Scan.skipTrivia, Scan.cut, Scan.mark?, Scan.equalsPair?,
        Scan.cutWord, Scan.isBlank, Scan.isDigit, Scan.beginsWord, Scan.continuesWord,
        Scan.Piece.item, Recast.item, unlined, Recast.token, relabel]
    rw [← (texts _ _ alike machine).1, Machine.run, Source.program?_print_nil]
    show (Output.unlimited.write (Utf8.encode (Value.nil.text machine.heap ++ "\n"))).written.toList
      = _
    rw [Output.toList_write, Value.text, Value.textWithin]
    rfl

end Script
