import Script.Proofs.Evaluation.Truncation
import Script.Proofs.Parsing.Recovery
import Script.Proofs.Session.Labels

/-! Units in a row. Two accepted texts with a line end between them are one unit that runs as the
two do one after the other, but that lines of the second count from the start of the first. -/

namespace Script

open Recast

namespace Token

/-- The last item of a text is its end, and no token before it is. -/
theorem scan_end (text : String) : ∃ before last, Token.scan text = before ++ [.ok last] ∧
    last.is .endOfText = true ∧ ∀ token ∈ Token.good before, token.is .endOfText = false := by
  obtain ⟨before, final, same, others⟩ := Scan.pieces_end 1 text.toList
  refine ⟨before.map Scan.Piece.item, ⟨.plain .endOfText, "", final⟩, ?_, rfl, ?_⟩
  · rw [Token.scan, same, List.map_append]
    rfl
  · intro token member
    obtain ⟨item, within, good⟩ := List.mem_filterMap.mp member
    obtain ⟨piece, inPieces, rfl⟩ := List.mem_map.mp within
    have noEnd := others piece inPieces
    obtain ⟨found, span, line⟩ := piece
    cases found with
    | error cause => cases good
    | ok kind =>
      cases good
      cases kind with
      | plain tag =>
        have other : tag ≠ .endOfText := fun same => noEnd (by rw [same])
        simpa [Token.is, Kind.tag?] using other
      | _ => rfl

/-- A text, a line end and another text. The tokens of the second are on later lines. -/
theorem scan_line_end {first : String} (second : String)
    (closed : ∀ line, .error ⟨.unterminatedString, line⟩ ∉ Token.scan first) :
    Token.scan (first ++ "\n" ++ second) = (Token.scan first).dropLast ++
      (Token.scan second).map (relabel (· + (Scan.newlines first.toList + 1))).item := by
  have closed' : ∀ piece ∈ Scan.pieces 1 first.toList,
      piece.found ≠ .error .unterminatedString := by
    intro piece member found
    apply closed piece.line
    refine List.mem_map.mpr ⟨piece, member, ?_⟩
    rw [Scan.Piece.item, found]
  have text : (first ++ "\n" ++ second).toList = first.toList ++ '\n' :: second.toList := by
    simp
  have later : Scan.pieces (1 + Scan.newlines first.toList + 1) second.toList =
      (Scan.pieces 1 second.toList).map (Scan.Piece.shift (Scan.newlines first.toList + 1)) := by
    rw [Nat.add_assoc]
    exact Scan.pieces_shift _ 1 second.toList
  rw [Token.scan, Token.scan, Token.scan, text, Scan.pieces_line_end _ closed', later,
    List.map_append, List.map_dropLast, List.map_map, List.map_map]
  congr 2
  funext piece
  obtain ⟨found, span, line⟩ := piece
  cases found <;> rfl

/-- Scanning is a homomorphism over lines. If no string of the first text is left open, the items of
two texts with a line end between them are those of the first without its end, and those of the
second with each line further down by the lines that the first and the line end make. -/
theorem scan_line_by_line {first : String}
    (closed : ∀ line, .error ⟨.unterminatedString, line⟩ ∉ Token.scan first) (second : String) :
    ∃ items last, Token.scan first = items ++ [.ok ⟨.plain .endOfText, "", last⟩] ∧
      Token.scan (first ++ "\n" ++ second) =
        items ++ (Token.scan second).map
          (relabel (· + (1 + Scan.newlines first.toList))).item := by
  obtain ⟨before, last, split, _⟩ := Scan.pieces_end 1 first.toList
  have scanned : Token.scan first =
      before.map Scan.Piece.item ++ [.ok ⟨.plain .endOfText, "", last⟩] := by
    rw [Token.scan, split, List.map_append]
    rfl
  refine ⟨before.map Scan.Piece.item, last, scanned, ?_⟩
  rw [scan_line_end second closed, scanned, List.dropLast_concat, Nat.add_comm 1]

/-- A character that begins nothing, and a comment that ends with its line. -/
theorem scan_line_by_line_behind_comment :
    (∀ line, .error ⟨.unterminatedString, line⟩ ∉ Token.scan "1.@ // \"") ∧
      ∃ items last, Token.scan "1.@ // \"" = items ++ [.ok ⟨.plain .endOfText, "", last⟩] ∧
        Token.scan ("1.@ // \"" ++ "\n" ++ "5 \"") =
          items ++ (Token.scan "5 \"").map
            (relabel (· + (1 + Scan.newlines "1.@ // \"".toList))).item := by
  have faults : Token.faults (Token.scan "1.@ // \"") = [⟨.unexpected '@', 1⟩] := by
    decide +kernel
  have closed (line : Nat) : .error ⟨.unterminatedString, line⟩ ∉ Token.scan "1.@ // \"" := by
    rw [← Token.mem_faults, faults]
    simp
  exact ⟨closed, scan_line_by_line closed "5 \""⟩

end Token

/-- A program is one on later lines too. -/
theorem Grammar.Program.moved {tokens : List Token} {statements : List Stmt} (line : Nat → Nat)
    (unended : ∀ token ∈ tokens, token.is .endOfText = false)
    (program : Program .strict tokens statements []) :
    Program .strict (tokens.map (relabel line).token) ((relabel line).stmts statements) [] := by
  have pending := TokenStream.pending_ofList unended
  rw [← pending] at program
  have parsed : ((relabel line).stream (.ofList tokens)).program.1 =
      .ok ((relabel line).stmts statements) := by
    rw [program_stream, (TokenStream.program_eq_ok _).mpr program]
    rfl
  have moved :
      Program .strict ((TokenStream.ofList tokens).pending.map (relabel line).token) _ [] :=
    (TokenStream.program_eq_ok _).mp parsed
  rwa [pending] at moved

/-- Programs in a row are a program. -/
theorem Grammar.Program.append {tokens further : List Token} {statements others : List Stmt}
    (unended : ∀ token ∈ tokens ++ further, token.is .endOfText = false)
    (program : Program .strict tokens statements [])
    (program' : Program .strict further others []) :
    Program .strict (tokens ++ further) (statements ++ others) [] := by
  have composes := (Composes.of_program program).append (Composes.of_program program')
  have parsed := (TokenStream.program_eq_ok _).mp (composes.program_eq unended)
  rwa [TokenStream.pending_ofList unended] at parsed

/-- Accepted texts with a line end between them are accepted, and the lines of the second are
moved down by those of the first. -/
theorem Source.program?_line_end {first second : String} {statements others : List Stmt}
    (accepted : (Source.text first).program? = .ok statements)
    (accepted' : (Source.text second).program? = .ok others) :
    (Source.text (first ++ "\n" ++ second)).program? = .ok (statements ++
      (relabel (· + (Scan.newlines first.toList + 1))).stmts others) := by
  obtain ⟨before, last, scanned, closes, unended⟩ := Token.scan_end first
  obtain ⟨before', last', scanned', closes', unended'⟩ := Token.scan_end second
  obtain ⟨clean, program⟩ :=
    (Source.program?_text_eq_ok scanned closes unended).mp accepted
  obtain ⟨clean', program'⟩ :=
    (Source.program?_text_eq_ok scanned' closes' unended').mp accepted'
  generalize lower : (relabel (· + (Scan.newlines first.toList + 1))) = down
  -- A string that is open at the end would take in the line end, but it is a fault.
  have closed : ∀ line, .error ⟨.unterminatedString, line⟩ ∉ Token.scan first := by
    intro line member
    rw [scanned] at member
    have fault : LexError.mk .unterminatedString line ∈ Token.faults before := by
      refine List.mem_filterMap.mpr ⟨.error ⟨.unterminatedString, line⟩, ?_, rfl⟩
      simpa using member
    rw [clean] at fault
    cases fault
  have joined : Token.scan (first ++ "\n" ++ second) =
      (before ++ before'.map down.item) ++ [.ok (down.token last')] := by
    rw [Token.scan_line_end second closed, scanned, scanned', List.dropLast_concat,
      List.map_append, lower, List.append_assoc]
    rfl
  have good : Token.good (before ++ before'.map down.item) =
      Token.good before ++ (Token.good before').map down.token := by
    rw [Token.good_append, good_item]
  have faults : Token.faults (before ++ before'.map down.item) = [] := by
    rw [Token.faults_append, faults_item, clean, clean']
    rfl
  have open' : ∀ token ∈ Token.good before ++ (Token.good before').map down.token,
      token.is .endOfText = false := by
    intro token member
    rcases List.mem_append.mp member with early | late
    · exact unended token early
    · obtain ⟨original, within, rfl⟩ := List.mem_map.mp late
      exact unended' original within
  apply (Source.program?_text_eq_ok joined closes' (good ▸ open')).mpr
  refine ⟨faults, ?_⟩
  rw [good]
  subst lower
  exact program.append open' (program'.moved _ unended')

/-- Goes on with statements behind others that do not return. -/
def Result.goOn (next : Machine → Result Flow) : Result Flow → Result Flow
  | .done .normal middle => next middle
  | .done (.returned value) middle => .done (.returned value) middle
  | .failed fault middle => .failed fault middle
  | .exhausted => .exhausted

theorem executeAll_cons (run : Stmt → Eval Flow) (first : Stmt) (rest : List Stmt)
    (machine : Machine) :
    executeAll run (first :: rest) machine = (run first machine).goOn (executeAll run rest) := by
  show Eval.bind (run first) _ machine = _
  unfold Eval.bind
  cases run first machine with
  | done flow middle => cases flow <;> rfl
  | failed failure middle => rfl
  | exhausted => rfl

theorem executeAll_append (run : Stmt → Eval Flow) (first second : List Stmt) (machine : Machine) :
    executeAll run (first ++ second) machine =
      (executeAll run first machine).goOn (executeAll run second) := by
  induction first generalizing machine with
  | nil => rfl
  | cons statement rest ih =>
    rw [List.cons_append, executeAll_cons, executeAll_cons]
    cases run statement machine with
    | done flow middle =>
      cases flow with
      | normal => exact ih middle
      | returned value => rfl
    | failed failure middle => rfl
    | exhausted => rfl

/-- Flushes the output behind statements that did not fail. -/
theorem interpret_eq (steps : Nat) (program : List Stmt) (machine : Machine) :
    interpret steps program machine =
      match executeAll (execute steps) program machine with
      | .done _ after => Eval.flush after
      | .failed fault after => .failed fault after
      | .exhausted => .exhausted := by
  show Eval.bind (executeAll (execute steps) program) _ machine = _
  unfold Eval.bind
  cases executeAll (execute steps) program machine <;> rfl

/-- A first part that goes to its end hands the machine over to the second. -/
theorem interpret_append_of_normal {steps : Nat} {first : List Stmt} {machine middle : Machine}
    (ended : executeAll (execute steps) first machine = .done .normal middle) (second : List Stmt) :
    interpret steps (first ++ second) machine = interpret steps second middle := by
  rw [interpret_eq, executeAll_append, ended, interpret_eq]
  rfl

/-- A first part that ends otherwise ends the whole. -/
theorem interpret_append_of_ended {steps : Nat} {first : List Stmt} {machine : Machine}
    (ended : ∀ middle, executeAll (execute steps) first machine ≠ .done .normal middle)
    (second : List Stmt) :
    interpret steps (first ++ second) machine = interpret steps first machine := by
  rw [interpret_eq, executeAll_append, interpret_eq]
  cases ran : executeAll (execute steps) first machine with
  | done flow middle =>
    cases flow with
    | normal => exact absurd ran (ended middle)
    | returned value => rfl
  | failed failure middle => rfl
  | exhausted => rfl

/-- The output can be flushed behind statements if it could before. -/
theorem interpret_of_normal {steps : Nat} {program : List Stmt} {machine middle : Machine}
    (ended : executeAll (execute steps) program machine = .done .normal middle)
    (flushes : machine.output.flushable = true) :
    interpret steps program machine = .done () middle := by
  have kept := Eval.Truncates.congruence .trim
  have grown := (kept.executeAll (kept.runs steps).2 program).grows machine middle
    (by rw [ended]; rfl)
  have flushes' : middle.output.flushable = true := grown.2.1.trans flushes
  rw [interpret_eq, ended]
  simp only [Eval.flush, flushes', ↓reduceIte]

/-- Code on other lines runs as one run in which its lines are kept apart from those of all code
before it. -/
theorem interpret_mixed (steps : Nat) (program : List Stmt) (machine : Machine)
    (renew : Nat → Nat) :
    interpret steps ((relabel renew).stmts program) machine =
      (relabel (mergeLines renew)).result id (interpret steps ((relabel newLine).stmts program)
        ((relabel oldLine).machine machine)) := by
  rw [← interpret_machine, machine_old, stmts_comp, mergeLines_new]

theorem result_unlined (line : Nat → Nat) (result : Result Unit) :
    unlined.result id ((relabel line).result id result) = unlined.result id result :=
  result_comp line (fun _ => 0) result

/-- Running in pieces is running whole. Accepted texts with a line end between them are accepted,
and if the first goes to its end, the whole goes on as the second does on the machine that the
first leaves: it ends alike, with the same output and the same globals, all but for lines. There is
one run of which both are renumberings: a line in code of the second text is moved down by the
lines of the first, and one in older code stays. If the first fails or returns, the whole ends as
the first does, and nothing of the second runs. -/
theorem units_run_as_one {first second : String} {statements others : List Stmt}
    (accepted : (Source.text first).program? = .ok statements)
    (accepted' : (Source.text second).program? = .ok others) :
    ∃ whole, (Source.text (first ++ "\n" ++ second)).program? = .ok whole ∧
      ∀ steps machine, machine.output.flushable = true →
        (∀ middle, executeAll (execute steps) statements machine = .done .normal middle →
          interpret steps statements machine = .done () middle ∧
          unlined.result id (interpret steps whole machine) =
            unlined.result id (interpret steps others middle) ∧
          ∃ mixed,
            interpret steps others middle = (relabel (mergeLines id)).result id mixed ∧
            interpret steps whole machine = (relabel (mergeLines
              (· + (Scan.newlines first.toList + 1)))).result id mixed ∧
            ∀ renew, interpret steps ((relabel renew).stmts others) middle =
              (relabel (mergeLines renew)).result id mixed) ∧
        ((∀ middle, executeAll (execute steps) statements machine ≠ .done .normal middle) →
          interpret steps whole machine = interpret steps statements machine) := by
  refine ⟨_, Source.program?_line_end accepted accepted', ?_⟩
  intro steps machine flushes
  constructor
  · intro middle ended
    have mixed := interpret_mixed steps others middle
    have own := mixed id
    have moved := mixed (· + (Scan.newlines first.toList + 1))
    rw [stmts_id] at own
    rw [interpret_append_of_normal ended]
    refine ⟨interpret_of_normal ended flushes, ?_, _, own, moved, mixed⟩
    rw [own, moved, result_unlined, result_unlined]
  · intro ended
    exact interpret_append_of_ended ended _

/-- A unit that prints before one that fails, whose error is on the second line then; and the same
two the other way round, where nothing is printed. -/
theorem units_run_as_one_of_print :
    let machine := Machine.fresh (fun _ => 0) .unlimited
    (∃ whole after, (Source.text ("print nil;" ++ "\n" ++ "x;")).program? = .ok whole ∧
      interpret 3 whole machine = .failed (.runtime ⟨.undefined "x", 2⟩) after ∧
      after.output.written.toList = Utf8.encode "nil\n") ∧
    ∃ whole, (Source.text ("x;" ++ "\n" ++ "print nil;")).program? = .ok whole ∧
      interpret 3 whole machine = .failed (.runtime ⟨.undefined "x", 1⟩) machine := by
  intro machine
  let name := Tag.identifier.mark "x"
  have unbound : machine.scopes.get? machine.active "x" = none :=
    Machine.get?_fresh (by decide) _ _
  constructor
  · obtain ⟨whole, joined, runs⟩ :=
      units_run_as_one Source.program?_print_nil Source.program?_name
    obtain ⟨middle, ended, scopes, active, output⟩ : ∃ middle,
        executeAll (execute 3) [.print (.literal .nil)] machine = .done .normal middle ∧
          middle.scopes = machine.scopes ∧ middle.active = machine.active ∧
          middle.output = Output.unlimited.write (Utf8.encode (Value.nil.text .empty ++ "\n")) :=
      ⟨_, rfl, rfl, rfl, rfl⟩
    obtain ⟨_, _, mixed, _, run, again⟩ := (runs 3 machine rfl).1 middle ended
    have lines : Scan.newlines "print nil;".toList = 0 := by decide
    have unbound' : middle.scopes.get? middle.active "x" = none := by
      rw [scopes, active]
      exact unbound
    refine ⟨whole, middle, joined, ?_, ?_⟩
    · rw [run, lines, ← again]
      exact @interpret_of_unbound middle { name with line := 2 } unbound' 1
    · rw [output, Value.text, Value.textWithin, Output.toList_write]
      rfl
  · obtain ⟨whole, joined, runs⟩ :=
      units_run_as_one Source.program?_name Source.program?_print_nil
    have stops : executeAll (execute 3) [.expression (.reference name)] machine =
        .failed (.runtime ⟨.undefined "x", 1⟩) machine :=
      Eval.bind_of_failed (execute_of_unbound unbound 1)
    refine ⟨whole, joined, ?_⟩
    rw [(runs 3 machine rfl).2 fun middle ended => by rw [stops] at ended; cases ended]
    exact interpret_of_unbound unbound 1

end Script
