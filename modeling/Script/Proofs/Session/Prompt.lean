import Script.Command
import Script.Proofs.Evaluation.Unhindered
import Script.Proofs.Parsing.Recovery
import Script.Proofs.Session.Concatenation
import Script.Proofs.Session.Formed
import Script.Proofs.Session.Lines

/-! The prompt as a session. A line that is refused leaves nothing behind but its diagnostics, and
all other lines run one after another on one machine. -/

namespace Script

/-- The faults of a line: the lexical ones in the order of the text, then those of the grammar. -/
def lineFaults (line : String) : List Diagnostic :=
  (Token.faults (Token.scan line)).map LexError.diagnostic ++
    (programFaults (Token.good (Token.scan line))).map ParseError.diagnostic

/-- What a program prints, as a text. -/
def printedText (program : List Stmt) (machine : Machine) : String :=
  String.join ((programPrints stepLimit program machine).map (·.text ++ "\n"))

/-- Whether a line is without a fault, so that it may run. -/
def isSound (line : String) : Bool := (lineFaults line).isEmpty

/-- A line and the reply to it. -/
structure Exchange where
  line : String
  reply : Repl.Reply

/-- Whether it is the exchange of a line that runs. -/
def Exchange.isSound (exchange : Exchange) : Bool := Script.isSound exchange.line

/-- Lines at a prompt, from one machine to another. A line with a fault does nothing but report all
of its faults. Any other line is a program that runs on the machine as the lines before have left
it; it prints what that program prints, and reports the runtime error that ends it, if one does. -/
inductive Conversation : Machine → List Exchange → Machine → Prop where
  | silent {machine : Machine} : Conversation machine [] machine
  | refused {machine last : Machine} {line : String} {others : List Exchange}
      (faulty : lineFaults line ≠ []) (next : Conversation machine others last) :
      Conversation machine (⟨line, "", lineFaults line⟩ :: others) last
  | ran {machine after last : Machine} {line : String} {program : List Stmt}
      {others : List Exchange} (accepted : (Source.text line).program? = .ok program)
      (ended : interpret stepLimit program machine = .done () after)
      (next : Conversation after others last) :
      Conversation machine (⟨line, printedText program machine, []⟩ :: others) last
  | failed {machine after last : Machine} {line : String} {program : List Stmt}
      {error : RuntimeError} {others : List Exchange}
      (accepted : (Source.text line).program? = .ok program)
      (ended : interpret stepLimit program machine = .failed (.runtime error) after)
      (next : Conversation after others last) :
      Conversation machine
        (⟨line, printedText program machine, [error.diagnostic]⟩ :: others) last

/-- The unit of each line comes to its end, where the lines before have left the machine. -/
def Machine.EndsAll : Machine → List String → Prop
  | _, [] => True
  | machine, line :: rest =>
    (machine.run (.text line)).1 ≠ .exhausted ∧ (machine.run (.text line)).2.EndsAll rest

/-- What a conversation shows on the two streams before it ends with its input: the prompt before
each reply and at the end, and each report on a line of its own. -/
def Exchange.shown (exchanges : List Exchange) : Effect where
  status := 0
  printed := String.join (exchanges.map ("> " ++ ·.reply.printed)) ++ "> " ++ "\n"
  reports := String.join (exchanges.map fun exchange =>
    String.join (exchange.reply.reports.map (·.text ++ "\n")))

/-- The transcript of a conversation that is over. -/
def Exchange.transcript (exchanges : List Exchange) : Repl.Transcript :=
  ⟨(shown exchanges).printed, (shown exchanges).reports, true⟩

/-- A text is accepted, or refused for the faults it has. -/
theorem Source.program?_text (line : String) :
    (∃ program, (text line).program? = .ok program ∧ lineFaults line = []) ∨
      ∃ refusal, (text line).program? = .error refusal ∧
        refusal.diagnostics = lineFaults line ∧ lineFaults line ≠ [] := by
  unfold program? scanned lineFaults programFaults
  dsimp only
  rcases (TokenStream.ofList (Token.good (Token.scan line))).program_ok_or_error with
    ⟨program, parsed⟩ | ⟨fault, faults, parsed⟩
  · rw [parsed]
    cases Token.faults (Token.scan line) with
    | nil => exact .inl ⟨program, rfl, rfl⟩
    | cons first others => exact .inr ⟨_, rfl, rfl, by simp⟩
  · rw [parsed]
    exact .inr ⟨_, rfl, rfl, by simp⟩

theorem isSound_of_accepted {line : String} {program : List Stmt}
    (accepted : (Source.text line).program? = .ok program) : isSound line = true := by
  rcases Source.program?_text line with ⟨_, _, sound⟩ | ⟨refusal, refused, _⟩
  · rw [isSound, sound, List.isEmpty_nil]
  · rw [accepted] at refused
    cases refused

/-- A machine on which a prompt runs its lines. -/
structure Machine.Ready (machine : Machine) : Prop where
  formed : machine.Formed Token.Names Native.any
  rooted : machine.Rooted
  active : machine.active = globalScope
  free : machine.output.Free

theorem Output.textFrom_write {output : Output} (unlimited : output.capacity = none)
    (text : String) : (output.write (Utf8.encode text)).textFrom output.written.size = text := by
  have behind : ((output.write (Utf8.encode text)).written.toList).drop output.written.size =
      Utf8.encode text := by
    simp only [Output.toList_write, Output.fitting, unlimited, ← Array.length_toList,
      List.drop_left]
  rw [Output.textFrom, behind, Utf8.decodeLenient_encode]

namespace Machine.Ready

variable {machine after : Machine} {program : List Stmt}

/-- A program leaves the machine ready for the next line, with what it prints behind what was
written before. -/
theorem interpret (ready : machine.Ready) (ofProgram : ∀ stmt ∈ program, stmt.Formed Token.Names)
    (ended : (interpret stepLimit program machine).machine? = some after) :
    after.Ready ∧
      after.output.textFrom machine.output.written.size = printedText program machine := by
  have runs := Renaming.Runs.interpret (Renaming.keep Token.Names) stepLimit ofProgram _ _
    (Renaming.twins_keep ready.formed)
  have wrote := runs.wrote ready.free.unlimited after ended
  have formed := (ready.formed.interpret stepLimit ofProgram).ends.1 after ended
  obtain ⟨kept, rooted⟩ := ready.rooted.interpret ended
  have text : (programPrints stepLimit program machine).flatMap Printed.bytes =
      Utf8.encode (printedText program machine) := by
    rw [printedText, Utf8.encode_join, List.flatMap_map]
    rfl
  rw [text] at wrote
  refine ⟨⟨formed, rooted, kept.active.trans ready.active, ?_⟩, ?_⟩
  · rw [wrote]
    exact ready.free.write _
  · rw [wrote, Output.textFrom_write ready.free.unlimited]

end Machine.Ready

theorem Machine.ready_fresh (around : Surroundings) : (Command.machine around).Ready where
  formed := Machine.formed_fresh around.reading .unlimited trivial
  rooted := Machine.rooted_fresh around.reading .unlimited
  active := rfl
  free := ⟨rfl, rfl⟩

section

variable {machine after last : Machine} {line : String} {program : List Stmt}

theorem Machine.run_of_accepted (accepted : (Source.text line).program? = .ok program) :
    machine.run (.text line) = machine.perform (interpret stepLimit program) := by
  rw [Machine.run, accepted]

/-- The reply to a line, and where it leaves the machine. -/
theorem Repl.answer_of_refused {refusal : Refusal}
    (refused : (Source.text line).program? = .error refusal) :
    Repl.answer machine line = (⟨"", refusal.diagnostics⟩, machine) := by
  rw [Repl.answer, Machine.run, refused]

theorem Repl.answer_of_done (accepted : (Source.text line).program? = .ok program)
    (ended : interpret stepLimit program machine = .done () after) :
    Repl.answer machine line =
      (⟨after.output.textFrom machine.output.written.size, []⟩, after) := by
  rw [Repl.answer, Machine.run_of_accepted accepted, Machine.perform, ended]

theorem Repl.answer_of_failed {failure : Failure}
    (accepted : (Source.text line).program? = .ok program)
    (ended : interpret stepLimit program machine = .failed failure after) :
    Repl.answer machine line =
      (⟨after.output.textFrom machine.output.written.size, [failure.diagnostic]⟩, after) := by
  rw [Repl.answer, Machine.run_of_accepted accepted, Machine.perform, ended]

theorem formed_of_accepted (accepted : (Source.text line).program? = .ok program) :
    ∀ stmt ∈ program, stmt.Formed Token.Names :=
  TokenStream.program_formed (Source.parsed_of_accepted accepted)

end

theorem Exchange.transcript_cons (exchange : Exchange) (others : List Exchange) :
    transcript (exchange :: others) =
      ⟨Repl.prompt ++ exchange.reply.printed ++ (transcript others).printed,
        Repl.reportText exchange.reply.reports ++ (transcript others).reports, true⟩ := by
  simp [transcript, shown, Repl.prompt, Repl.reportText, String.append_assoc]

namespace Conversation

variable {machine last : Machine} {exchanges : List Exchange}

/-- Lines whose units all come to an end make up a conversation. -/
theorem exists_of_endsAll {lines : List String} (ready : machine.Ready)
    (ends : machine.EndsAll lines) :
    ∃ exchanges last, exchanges.map Exchange.line = lines ∧
      Conversation machine exchanges last := by
  induction lines generalizing machine with
  | nil => exact ⟨[], machine, rfl, .silent⟩
  | cons line rest ih =>
    obtain ⟨here, others⟩ := ends
    rcases Source.program?_text line with ⟨program, accepted, _⟩ | ⟨refusal, refused, told, faulty⟩
    · rw [Machine.run_of_accepted accepted, Machine.perform] at here others
      have formed := formed_of_accepted accepted
      have unhindered := Eval.Unhindered.interpret stepLimit program machine ready.free
      have kept := fun after => @Machine.Ready.interpret machine after program ready formed
      cases ended : interpret stepLimit program machine with
      | done value after =>
        rw [ended] at others kept
        obtain ⟨exchanges, last, rfl, next⟩ := ih (kept after rfl).1 others
        exact ⟨_, last, rfl, .ran accepted ended next⟩
      | failed failure after =>
        rw [ended] at others kept unhindered
        obtain ⟨exchanges, last, rfl, next⟩ := ih (kept after rfl).1 others
        cases unhindered with
        | failed => exact ⟨_, last, rfl, .failed accepted ended next⟩
      | exhausted =>
        rw [ended] at here
        exact absurd rfl here
    · rw [Machine.run, refused] at others
      obtain ⟨exchanges, last, rfl, next⟩ := ih ready others
      exact ⟨_, last, rfl, .refused faulty next⟩

theorem transcript_cons {after : Machine} {exchange : Exchange} {others : List Exchange}
    {bytes : List UInt8} {rest : List (List UInt8)} (text : Utf8.decode bytes = .ok exchange.line)
    (answer : Repl.answer machine exchange.line = (exchange.reply, after))
    (shows : Repl.transcript after rest = Exchange.transcript others) :
    Repl.transcript machine (bytes :: rest) = Exchange.transcript (exchange :: others) := by
  rw [Exchange.transcript_cons, Repl.transcript, text]
  dsimp only
  rw [answer]
  dsimp only
  rw [shows]
  rfl

/-- The prompt shows what a conversation of its lines shows. -/
theorem transcript_eq (conversation : Conversation machine exchanges last) (ready : machine.Ready)
    {lines : List (List UInt8)}
    (texts : lines.map Utf8.decode = exchanges.map fun exchange => .ok exchange.line) :
    last.Ready ∧ Repl.transcript machine lines = Exchange.transcript exchanges := by
  induction conversation generalizing lines with
  | silent =>
    obtain rfl := List.map_eq_nil_iff.mp texts
    exact ⟨ready, rfl⟩
  | refused faulty next ih =>
    obtain ⟨bytes, rest, rfl, text, others⟩ := List.map_eq_cons_iff.mp texts
    obtain ⟨still, shows⟩ := ih ready others
    obtain ⟨_, _, sound⟩ | ⟨refusal, refused, told, _⟩ := Source.program?_text _
    · exact absurd sound faulty
    · refine ⟨still, transcript_cons text ?_ shows⟩
      rw [Repl.answer_of_refused refused, told]
  | ran accepted ended next ih =>
    obtain ⟨bytes, rest, rfl, text, others⟩ := List.map_eq_cons_iff.mp texts
    obtain ⟨kept, printed⟩ := ready.interpret (formed_of_accepted accepted) (by rw [ended]; rfl)
    obtain ⟨still, shows⟩ := ih kept others
    refine ⟨still, transcript_cons text ?_ shows⟩
    rw [Repl.answer_of_done accepted ended, printed]
  | failed accepted ended next ih =>
    obtain ⟨bytes, rest, rfl, text, others⟩ := List.map_eq_cons_iff.mp texts
    obtain ⟨kept, printed⟩ := ready.interpret (formed_of_accepted accepted) (by rw [ended]; rfl)
    obtain ⟨still, shows⟩ := ih kept others
    refine ⟨still, transcript_cons text ?_ shows⟩
    rw [Repl.answer_of_failed accepted ended, printed]
    rfl

/-- The command shows what the conversation shows, and it succeeds. -/
theorem runCommandLine_eq {around : Surroundings}
    (conversation : Conversation (Command.machine around) exchanges last)
    (texts : (Repl.lines around.input).map Utf8.decode =
      exchanges.map fun exchange => .ok exchange.line) :
    runCommandLine around ["repl"] = Exchange.shown exchanges := by
  obtain ⟨_, shows⟩ := conversation.transcript_eq (Machine.ready_fresh around) texts
  have invocation : Invocation.ofArguments? ["repl"] = some ⟨.repl, none⟩ := by rfl
  rw [runCommandLine, invocation]
  show Command.converse around = _
  rw [Command.converse, shows]
  rfl

/-- The lines determine what is said, and where it leads. -/
theorem unique {last' : Machine} {exchanges' : List Exchange}
    (conversation : Conversation machine exchanges last)
    (other : Conversation machine exchanges' last')
    (lines : exchanges'.map Exchange.line = exchanges.map Exchange.line) :
    exchanges' = exchanges ∧ last' = last := by
  have sound {line : String} {program : List Stmt}
      (accepted : (Source.text line).program? = .ok program) : lineFaults line = [] :=
    List.isEmpty_iff.mp (isSound_of_accepted accepted)
  induction conversation generalizing exchanges' with
  | silent =>
    obtain rfl := List.map_eq_nil_iff.mp lines
    cases other
    exact ⟨rfl, rfl⟩
  | refused faulty next ih =>
    obtain ⟨_, others, rfl, rfl, rest⟩ := List.map_eq_cons_iff.mp lines
    cases other with
    | refused _ next' =>
      obtain ⟨rfl, rfl⟩ := ih next' rest
      exact ⟨rfl, rfl⟩
    | ran accepted | failed accepted => exact absurd (sound accepted) faulty
  | ran accepted ended next ih =>
    obtain ⟨_, others, rfl, rfl, rest⟩ := List.map_eq_cons_iff.mp lines
    cases other with
    | refused faulty => exact absurd (sound accepted) faulty
    | ran accepted' ended' next' =>
      cases accepted'.symm.trans accepted
      cases ended'.symm.trans ended
      obtain ⟨rfl, rfl⟩ := ih next' rest
      exact ⟨rfl, rfl⟩
    | failed accepted' ended' =>
      cases accepted'.symm.trans accepted
      cases ended'.symm.trans ended
  | failed accepted ended next ih =>
    obtain ⟨_, others, rfl, rfl, rest⟩ := List.map_eq_cons_iff.mp lines
    cases other with
    | refused faulty => exact absurd (sound accepted) faulty
    | ran accepted' ended' =>
      cases accepted'.symm.trans accepted
      cases ended'.symm.trans ended
    | failed accepted' ended' next' =>
      cases accepted'.symm.trans accepted
      cases ended'.symm.trans ended
      obtain ⟨rfl, rfl⟩ := ih next' rest
      exact ⟨rfl, rfl⟩

/-- The units of a conversation all come to an end. -/
theorem endsAll (conversation : Conversation machine exchanges last) :
    machine.EndsAll (exchanges.map Exchange.line) := by
  induction conversation with
  | silent => trivial
  | @refused machine _ line _ faulty next ih =>
    obtain ⟨_, _, sound⟩ | ⟨refusal, refused, _⟩ := Source.program?_text line
    · exact absurd sound faulty
    · have here : machine.run (.text line) = (.refused refusal, machine) := by
        rw [Machine.run, refused]
      rw [List.map_cons, Machine.EndsAll, here]
      exact ⟨by simp, ih⟩
  | ran accepted ended next ih =>
    rw [List.map_cons, Machine.EndsAll, Machine.run_of_accepted accepted, Machine.perform, ended]
    exact ⟨by simp, ih⟩
  | failed accepted ended next ih =>
    rw [List.map_cons, Machine.EndsAll, Machine.run_of_accepted accepted, Machine.perform, ended]
    exact ⟨by simp, ih⟩

/-- Refused lines may be left out. -/
theorem sound (conversation : Conversation machine exchanges last) :
    Conversation machine (exchanges.filter Exchange.isSound) last := by
  induction conversation with
  | silent => exact .silent
  | refused faulty next ih =>
    rw [List.filter_cons_of_neg (by simpa [Exchange.isSound, isSound] using faulty)]
    exact ih
  | ran accepted ended next ih =>
    rw [List.filter_cons_of_pos (by exact isSound_of_accepted accepted)]
    exact .ran accepted ended ih
  | failed accepted ended next ih =>
    rw [List.filter_cons_of_pos (by exact isSound_of_accepted accepted)]
    exact .failed accepted ended ih

/-- Refused lines may be put in anywhere. -/
theorem exists_among {lines : List String} (conversation : Conversation machine exchanges last)
    (sound : lines.filter isSound = exchanges.map Exchange.line) :
    ∃ exchanges', exchanges'.map Exchange.line = lines ∧ Conversation machine exchanges' last ∧
      exchanges'.filter Exchange.isSound = exchanges := by
  induction lines generalizing machine exchanges with
  | nil =>
    obtain rfl := List.map_eq_nil_iff.mp sound.symm
    exact ⟨[], rfl, conversation, rfl⟩
  | cons line rest ih =>
    by_cases faulty : lineFaults line = []
    · have here : isSound line = true := by simp [isSound, faulty]
      rw [List.filter_cons_of_pos here] at sound
      obtain ⟨exchange, others, rfl, rfl, more⟩ := List.map_eq_cons_iff.mp sound.symm
      cases conversation with
      | refused unsound => exact absurd faulty unsound
      | ran accepted ended next =>
        obtain ⟨found, rfl, conversation, same⟩ := ih next more.symm
        refine ⟨_ :: found, rfl, .ran accepted ended conversation, ?_⟩
        rw [List.filter_cons_of_pos (by exact here), same]
      | failed accepted ended next =>
        obtain ⟨found, rfl, conversation, same⟩ := ih next more.symm
        refine ⟨_ :: found, rfl, .failed accepted ended conversation, ?_⟩
        rw [List.filter_cons_of_pos (by exact here), same]
    · have here : ¬isSound line = true := by simpa [isSound] using faulty
      rw [List.filter_cons_of_neg here] at sound
      obtain ⟨found, rfl, conversation, same⟩ := ih conversation sound
      refine ⟨_ :: found, rfl, .refused faulty conversation, ?_⟩
      rw [List.filter_cons_of_neg (by exact here), same]

end Conversation

/-- The prompt is one session. If the lines of the input are text and their units all come to an
end, the command succeeds, and shows what the conversation of these lines shows: each line after a
prompt, with what its program prints and the error that ends it, or with all faults for which it is
refused. A line that is refused does nothing else. Whatever refused lines are left out of the input
or put in, the other lines are replied to as before. -/
theorem prompt_is_one_session {around : Surroundings} {lines : List String}
    (typed : Repl.Typed around.input lines) (ends : (Command.machine around).EndsAll lines) :
    ∃ exchanges last, exchanges.map Exchange.line = lines ∧
      Conversation (Command.machine around) exchanges last ∧ last.active = globalScope ∧
      runCommandLine around ["repl"] = Exchange.shown exchanges ∧
      ∀ input' lines', Repl.Typed input' lines' →
        lines'.filter isSound = lines.filter isSound →
        ∃ exchanges', exchanges'.map Exchange.line = lines' ∧
          Conversation (Command.machine around) exchanges' last ∧
          runCommandLine { around with input := input' } ["repl"] = Exchange.shown exchanges' ∧
          exchanges'.filter Exchange.isSound = exchanges.filter Exchange.isSound := by
  have ready := Machine.ready_fresh around
  obtain ⟨exchanges, last, rfl, conversation⟩ := Conversation.exists_of_endsAll ready ends
  have texts := typed.lines_eq
  rw [List.map_map] at texts
  refine ⟨exchanges, last, rfl, conversation, (conversation.transcript_eq ready texts).1.active,
    conversation.runCommandLine_eq texts, fun input' lines' typed' same => ?_⟩
  rw [List.filter_map] at same
  obtain ⟨exchanges', rfl, conversation', kept⟩ := conversation.sound.exists_among same
  have texts' := typed'.lines_eq
  rw [List.map_map] at texts'
  have shows := @Conversation.runCommandLine_eq _ _ { around with input := input' } conversation'
    texts'
  exact ⟨exchanges', rfl, conversation', shows, kept⟩

theorem lineFaults_unexpected : lineFaults "@" = [.lexical 1 "Unexpected character: @"] := by
  have scanned : Token.scan "@" = [.error ⟨.unexpected '@', 1⟩, .ok ⟨.plain .endOfText, "", 1⟩] := by
    simp [Token.scan, Scan.pieces_eq, Scan.skipTrivia, Scan.cut, Scan.mark?, Scan.equalsPair?,
      Scan.isBlank, Scan.isDigit, Scan.beginsWord, Scan.Piece.item]
  have parsed : (TokenStream.ofList [⟨.plain .endOfText, "", 1⟩]).program.1 = .ok [] :=
    (TokenStream.program_eq_ok _).mpr Grammar.Program.nil
  have none : programFaults [⟨.plain .endOfText, "", 1⟩] = [] := by
    rw [programFaults, parsed]
  rw [lineFaults, scanned]
  show _ ++ List.map _ (programFaults [⟨.plain .endOfText, "", 1⟩]) = _
  rw [none]
  rfl

theorem printedText_print_nil (around : Surroundings) :
    printedText [.print (.literal .nil)] (Command.machine around) = "nil\n" := by
  have told : programPrints stepLimit [.print (.literal .nil)] (Command.machine around) =
      [⟨.nil, .empty⟩] := rfl
  simp [printedText, told, Printed.text, Value.text, Value.textWithin]

theorem printedText_of_unbound {machine : Machine} {name : Token}
    (unbound : machine.scopes.get? machine.active name.lexeme = none) :
    printedText [.expression (.reference name)] machine = "" := by
  have stops := execute_of_unbound unbound (stepLimit - 2)
  have told : programPrints stepLimit [.expression (.reference name)] machine = [] := by
    show _ ++ (execute (stepLimit - 2 + 2) _ machine).thenPrints _ = _
    rw [stops]
    rfl
  rw [printedText, told]
  rfl

/-- A line that prints, one that is refused and one that fails; and the same without the second. -/
theorem prompt_is_one_session_of_three :
    let lines := ["print nil;", "@", "x;"]
    let last := "x;".toUTF8.toList
    let first := ("print nil;" ++ "\n").toUTF8.toList
    let input := first ++ (("@" ++ "\r\n").toUTF8.toList ++ last)
    let without := first ++ last
    let around : Surroundings := ⟨fun _ => .error .missing, fun _ => .ok (), input, fun _ => 0⟩
    Repl.Typed around.input lines ∧ (Command.machine around).EndsAll lines ∧
      runCommandLine around ["repl"] = ⟨0, "> nil\n> > > \n",
        "[line 1] Error: Unexpected character: @\n" ++
          "[line 1] Runtime Error: Undefined variable 'x'.\n"⟩ ∧
      runCommandLine { around with input := without } ["repl"] =
        ⟨0, "> nil\n> > \n", "[line 1] Runtime Error: Undefined variable 'x'.\n"⟩ := by
  intro lines last first input without around
  have final : Repl.Typed last ["x;"] := .unended (by decide) (by decide)
  have typed : Repl.Typed around.input lines :=
    .ended (by decide) (by decide) (.returned (by decide) final)
  have typed' : Repl.Typed without ["print nil;", "x;"] := .ended (by decide) (by decide) final
  let machine := Command.machine around
  obtain ⟨after, ended, scopes, active⟩ : ∃ after,
      interpret stepLimit [.print (.literal .nil)] machine = .done () after ∧
        after.scopes = machine.scopes ∧ after.active = globalScope := ⟨_, rfl, rfl, rfl⟩
  have unbound : after.scopes.get? after.active (Tag.identifier.mark "x").lexeme = none := by
    rw [scopes, active]
    exact Machine.get?_fresh (by decide) _ _
  have failed := interpret_of_unbound unbound (stepLimit - 2)
  have fails := Conversation.failed Source.program?_name failed .silent
  have faulty : lineFaults "@" ≠ [] := by simp [lineFaults_unexpected]
  have refused := Conversation.refused faulty fails
  have whole := Conversation.ran Source.program?_print_nil ended refused
  have part := Conversation.ran Source.program?_print_nil ended fails
  rw [printedText_print_nil around, printedText_of_unbound unbound] at whole part
  rw [lineFaults_unexpected] at whole
  have ends : machine.EndsAll lines := whole.endsAll
  have sound : ["print nil;", "x;"].filter isSound = lines.filter isSound := by
    have prints := isSound_of_accepted Source.program?_print_nil
    have unexpected : isSound "@" = false := by
      rw [isSound, lineFaults_unexpected, List.isEmpty_cons]
    have names := isSound_of_accepted Source.program?_name
    simp [lines, prints, unexpected, names]
  obtain ⟨exchanges, _, same, said, _, shows, alike⟩ := prompt_is_one_session typed ends
  obtain ⟨exchanges', same', said', shows', _⟩ := alike _ _ typed' sound
  obtain ⟨rfl, rfl⟩ := whole.unique said same
  obtain ⟨rfl, _⟩ := part.unique said' same'
  exact ⟨typed, ends, shows, shows'⟩

end Script
