import Script.Proofs.Parsing.Order
import Script.Proofs.Parsing.SentenceCursor

/-! A parser only moves forward. Each of its calls comes to an end at the first end mark or before
it, blames tokens in the order in which they stand, and does not depend on what stands behind the
end mark. -/

namespace Script

/-- The place of the first end mark. If there is none, one is supplied behind the last token. -/
def Token.endPlace (tokens : List Token) : Nat := tokens.findIdx (·.is .endOfText)

namespace TokenStream

/-- The result of a call if there is nothing to complain about, and otherwise the reports. -/
def answer {α : Type} (stream : TokenStream) (result : α) (complaints : List Complaint) :
    Except (List Report) α :=
  if complaints.isEmpty then .ok result else .error (complaints.map stream.report)

theorem answer_eq_error {α : Type} {stream : TokenStream} {result : α}
    {complaints : List Complaint} {reports : List Report}
    (refused : stream.answer result complaints = .error reports) :
    reports = complaints.map stream.report := by
  unfold answer at refused
  split at refused
  · cases refused
  · exact (Except.error.inj refused).symm

/-- A list of tokens has a first end mark, or none. -/
theorem ended_or_unended (tokens : List Token) :
    (∃ before mark beyond, tokens = before ++ mark :: beyond ∧
      (∀ token ∈ before, token.is .endOfText = false) ∧ mark.is .endOfText = true) ∨
    ∀ token ∈ tokens, token.is .endOfText = false := by
  cases found : tokens.find? (·.is .endOfText) with
  | some mark =>
    obtain ⟨closes, before, beyond, split, unended⟩ := List.find?_eq_some_iff_append.mp found
    exact .inl ⟨before, mark, beyond, split, by simpa using unended, closes⟩
  | none => exact .inr (by simpa using found)

theorem length_pending (tokens : List Token) :
    (ofList tokens).pending.length = Token.endPlace tokens := by
  have shorter := @List.findIdx_le_length _ (Token.is · .endOfText) tokens
  show (tokens.takeWhile _).length = _
  rw [List.takeWhile_eq_take_findIdx_not, List.length_take]
  simpa [Token.endPlace] using shorter

/-- The stream is made of the tokens in reach. -/
theorem ofList_take (tokens : List Token) :
    ofList (tokens.take (Token.endPlace tokens + 1)) = ofList tokens := by
  rw [← length_pending]
  rcases ended_or_unended tokens with ⟨before, mark, beyond, rfl, unended, closes⟩ | unended
  · obtain ⟨pending, last⟩ := ofList_of_end beyond unended closes
    obtain ⟨pending', last'⟩ := ofList_of_end [] unended closes
    have reach : (before ++ mark :: beyond).take (before.length + 1) = before ++ [mark] := by
      simp [List.take_append]
    rw [pending, reach]
    exact eq_of_parts (pending'.trans pending.symm) (last'.trans last.symm)
  · rw [(ofList_of_unended unended).1, List.take_of_length_le (Nat.le_succ _)]

end TokenStream

namespace Parser

open Run (bind_of_done bind_of_raised)

/-- The same call of a stream of tokens. -/
def Call.onStream (stream : TokenStream) : Call → Except (List ParseError) Parsed × TokenStream
  | .program => (stream.program.1.map .program, stream.program.2)
  | .expression => (stream.expression.1.map .expression, stream.expression.2)

/-- The answer of a call, without the places. -/
def plain {α : Type} (answer : Except (List Report) α) : Except (List ParseError) α :=
  answer.mapError (·.map Report.toParseError)

/-- A stream and a parser of these tokens, after the same calls. -/
inductive Reached (tokens : List Token) : TokenStream → Parser → Prop where
  | fresh : Reached tokens (TokenStream.ofList tokens) (Parser.ofList tokens)
  | called {stream : TokenStream} {parser after : Parser} {answer : Except (List Report) Parsed}
      (before : Reached tokens stream parser) (call : Call) (enough : Nat)
      (answered : ∀ steps, enough ≤ steps → call.run steps parser = .done answer after) :
      Reached tokens (call.onStream stream).2 after

/-- Reports on tokens, the first end mark of which is at the place `last`. Those that unwind are
in the order of their places, and only the end mark is blamed again. -/
structure Ascending (tokens : List Token) (last : Nat) (reports : List Report) : Prop where
  placed : ∀ report ∈ reports, report.cause.unwinds = true →
    tokens[report.place]? = some report.token ∧ report.place ≤ last
  ordered : (reports.filter (·.cause.unwinds)).Pairwise fun earlier later =>
    earlier.place < later.place ∨ earlier.place = last ∧ later.place = last
  closing : ∀ report ∈ reports, report.cause = .expected .blockEnd → report.place = last

variable {stream : TokenStream} {beyond : List Token} {input left : List Token}
  {complaints : List Complaint}

theorem finish_facing {α : Type} (value : α) :
    finish value (facing stream beyond input (complaints.map stream.report)) =
      .done (stream.answer value complaints) (facing stream beyond input []) := by
  cases complaints <;> rfl

theorem plain_answer {α β : Type} {make : α → β} (result : α) (within : input <:+ stream.pending) :
    plain ((stream.answer result complaints).map make) =
      ((stream.leave input within).conclude result complaints).map make := by
  unfold TokenStream.answer TokenStream.conclude
  split
  · rfl
  · exact congrArg Except.error List.map_map

theorem map_eq_error {α β ε : Type} {make : α → β} {answer : Except ε α} {error : ε}
    (refused : answer.map make = .error error) : answer = .error error := by
  cases answer with
  | ok result => cases refused
  | error found => exact congrArg Except.error (Except.error.inj refused)

theorem report_place_lt_iff {first second : Complaint} (within : first.remaining <:+ stream.pending)
    (within' : second.remaining <:+ stream.pending) :
    (stream.report first).place < (stream.report second).place ↔
      second.remaining.length < first.remaining.length := by
  have bound := within.length_le
  have bound' := within'.length_le
  show stream.pending.length - _ < stream.pending.length - _ ↔ _
  omega

theorem report_place_of_end {complaint : Complaint} (none : complaint.remaining = []) :
    (stream.report complaint).place = stream.pending.length := by
  simp [TokenStream.report, none]

theorem report_placed {complaint : Complaint} (within : complaint.remaining <:+ stream.pending) :
    (stream.pending ++ stream.last :: beyond)[(stream.report complaint).place]? =
      some (stream.report complaint).token := by
  obtain ⟨before, split⟩ := within
  have place : (stream.report complaint).place = before.length := by
    simp [TokenStream.report, ← split]
  rw [place, ← split, List.append_assoc, List.getElem?_append_right (Nat.le_refl _), Nat.sub_self]
  show _ = some (complaint.remaining.headD stream.last)
  cases complaint.remaining <;> rfl

/-- Complaints in order are reported in order. -/
theorem ascending_of_orderly (orderly : Orderly input [] complaints)
    (within : input <:+ stream.pending) :
    Ascending (stream.pending ++ stream.last :: beyond) stream.pending.length
      (complaints.map stream.report) where
  placed := by
    refine List.forall_mem_map.mpr fun complaint member unwinds => ?_
    have inside := (orderly.inside complaint member unwinds).1.trans within
    exact ⟨report_placed inside, Nat.sub_le _ _⟩
  ordered := by
    rw [List.filter_map, List.pairwise_map]
    refine List.Pairwise.imp_of_mem ?_ orderly.ordered
    intro earlier later inEarlier inLater passed
    obtain ⟨inEarlier, unwinds⟩ := List.mem_filter.mp inEarlier
    obtain ⟨inLater, unwinds'⟩ := List.mem_filter.mp inLater
    have inside := (orderly.inside earlier inEarlier unwinds).1.trans within
    have inside' := (orderly.inside later inLater unwinds').1.trans within
    rcases passed with shorter | none
    · exact .inl ((report_place_lt_iff inside inside').mpr shorter)
    · have place : (stream.report later).place = _ := report_place_of_end none
      rcases Nat.lt_or_ge (stream.report earlier).place stream.pending.length with before | atEnd
      · exact .inl (place.symm ▸ before)
      · exact .inr ⟨Nat.le_antisymm (Nat.sub_le _ _) atEnd, place⟩
  closing := by
    refine List.forall_mem_map.mpr fun complaint member cause => ?_
    exact report_place_of_end (orderly.closing complaint member cause)

/-- What a call before `input` comes to, whatever is out of reach. -/
structure Comes (stream : TokenStream) (input : List Token) (within : input <:+ stream.pending)
    (call : Call) (answer : Except (List Report) Parsed) (left : List Token) : Prop where
  left_within : left <:+ input
  run : ∀ beyond steps, (stream.pending.length + 1) * 20 ≤ steps →
    call.run steps (facing stream beyond input []) = .done answer (facing stream beyond left [])
  onStream : call.onStream (stream.leave input within) =
    (plain answer, stream.leave left (left_within.trans within))
  reaches : call = .program → left = []
  orderly : ∀ reports, answer = .error reports →
    ∃ complaints, reports = complaints.map stream.report ∧ Orderly input [] complaints

theorem program_comes (within : input <:+ stream.pending) :
    ∃ answer, Comes stream input within .program answer [] := by
  have leaves : (Rule.declarations false input).Ensures _ _ := Rule.declarations_leave false input
  have orders : (Rule.declarations false input).Orders := Rule.declarations_order
  have tracks (beyond : List Token) : Tracks stream beyond _ _ (Rule.declarations false input) :=
    declarations_tracks_rule
  cases outcome : Rule.declarations false input with
  | stopped complaint within notes =>
    rw [outcome] at leaves
    exact leaves.elim
  | accepted statements rest moved notes =>
    rw [outcome] at leaves orders
    obtain rfl : rest = [] := leaves.resolve_right (by simp)
    refine ⟨(stream.answer statements notes).map .program, List.nil_suffix, ?run, ?onStream,
      fun _ => rfl, ?orderly⟩
    case run =>
      intro beyond steps enough
      have shorter := within.length_le
      have follows := tracks beyond within steps (by omega) []
      rw [outcome] at follows
      exact bind_of_done ((bind_of_done follows).trans (finish_facing statements))
    case onStream =>
      have parsed : Rule.declarations false (stream.leave input within).pending =
        .accepted statements [] moved notes := outcome
      rw [plain_answer statements within]
      simp only [Call.onStream, TokenStream.program, parsed]
      rfl
    case orderly =>
      intro reports refused
      exact ⟨notes, TokenStream.answer_eq_error (map_eq_error refused), orders⟩

/-- The rule for an expression that reaches up to the end mark. -/
def Rule.whole (input : List Token) : Outcome Expr true input :=
  (Rule.expression input).andThen fun tree rest _ =>
    if rest.isEmpty then .done tree else .stop .endOfExpression

theorem whole_orders : (Rule.whole input).Orders := by
  refine Rule.expression_orders_complaints.andThen fun tree rest _ => ?_
  split
  · exact Outcome.orders_done
  · exact Outcome.orders_stop (by decide)

theorem whole_tracks : Tracks stream beyond (input.length * 20 + 15) wholeExpression
    (Rule.whole input) := by
  intro within steps enough
  refine (expression_tracks_rule within steps enough).andThen fun tree rest moved reports => ?_
  have inside := moved.1.trans within
  refine (bind_of_done (isAtEnd_facing inside)).trans ?_
  cases rest with
  | nil => exact Follows.done tree reports
  | cons token after => exact Follows.raise_peek inside reports

theorem expression_eq_whole : stream.expression =
    match Rule.whole stream.pending with
    | .accepted tree rest moved notes =>
      (stream.conclude tree notes, stream.leave rest moved.1)
    | .stopped complaint within notes =>
      (.error ((notes ++ [complaint]).map stream.blame),
        stream.leave complaint.remaining within) := by
  unfold TokenStream.expression Rule.whole
  cases Rule.expression stream.pending with
  | stopped complaint within notes => rfl
  | accepted tree rest moved notes =>
    cases rest with
    | nil => rfl
    | cons token after => simp [Outcome.andThen, Outcome.stop, TokenStream.conclude]

theorem parseExpression_of_done {steps : Nat} {parser after : Parser} {tree : Expr}
    (whole : wholeExpression steps parser = .done tree after) :
    parseExpression steps parser = finish tree after := by
  unfold parseExpression
  rw [whole]

theorem parseExpression_of_raised {steps : Nat} {parser after : Parser} {report : Report}
    (whole : wholeExpression steps parser = .raised report after) :
    parseExpression steps parser =
      .done (.error (after.reports ++ [report])) { after with reports := [] } := by
  unfold parseExpression
  rw [whole]

theorem expression_comes (within : input <:+ stream.pending) :
    ∃ answer left, Comes stream input within .expression answer left := by
  have orders : (Rule.whole input).Orders := whole_orders
  have tracks (beyond : List Token) : Tracks stream beyond _ _ (Rule.whole input) := whole_tracks
  cases outcome : Rule.whole input with
  | stopped complaint blamed notes =>
    rw [outcome] at orders
    refine ⟨.error ((notes ++ [complaint]).map stream.report), complaint.remaining, blamed, ?run,
      ?onStream, nofun, ?orderly⟩
    case run =>
      intro beyond steps enough
      have shorter := within.length_le
      have follows := tracks beyond within steps (by omega) []
      rw [outcome] at follows
      refine (bind_of_done (parseExpression_of_raised follows)).trans ?_
      rw [List.map_append]
      rfl
    case onStream =>
      have parsed : Rule.whole (stream.leave input within).pending =
        .stopped complaint blamed notes := outcome
      simp only [Call.onStream, expression_eq_whole, parsed]
      rw [plain, Except.mapError, List.map_map]
      rfl
    case orderly =>
      intro reports refused
      exact ⟨_, (Except.error.inj refused).symm, orders.1.append
        (.single List.suffix_rfl (.inr rfl) orders.2) blamed List.nil_suffix⟩
  | accepted tree rest moved notes =>
    rw [outcome] at orders
    refine ⟨(stream.answer tree notes).map .expression, rest, moved.1, ?run', ?onStream', nofun,
      ?orderly'⟩
    case run' =>
      intro beyond steps enough
      have shorter := within.length_le
      have follows := tracks beyond within steps (by omega) []
      rw [outcome] at follows
      exact bind_of_done ((parseExpression_of_done follows).trans (finish_facing tree))
    case onStream' =>
      have parsed : Rule.whole (stream.leave input within).pending =
        .accepted tree rest moved notes := outcome
      rw [plain_answer tree within]
      simp only [Call.onStream, expression_eq_whole, parsed]
      rfl
    case orderly' =>
      intro reports refused
      exact ⟨notes, TokenStream.answer_eq_error (map_eq_error refused), orders.toEnd⟩

theorem call_comes (within : input <:+ stream.pending) (call : Call) :
    ∃ answer left, Comes stream input within call answer left := by
  cases call with
  | program =>
    obtain ⟨answer, comes⟩ := program_comes within
    exact ⟨answer, [], comes⟩
  | expression => exact expression_comes within

theorem ofList_tokens (tokens : List Token) :
    ∃ extra, (Parser.ofList tokens).tokens = tokens ++ extra := by
  unfold Parser.ofList
  dsimp only
  split
  · split
    · exact ⟨[], (List.append_nil _).symm⟩
    · exact ⟨_, rfl⟩
  · rename_i none
    rw [List.getLast?_eq_none_iff.mp none]
    exact ⟨_, rfl⟩

theorem ofList_tokens_of_unended {tokens : List Token}
    (unended : ∀ token ∈ tokens, token.is .endOfText = false) :
    (Parser.ofList tokens).tokens = tokens ++ [TokenStream.missingLast tokens] := by
  unfold Parser.ofList
  dsimp only
  split
  · rename_i last found
    simp [unended last (List.mem_of_getLast? found)]
  · rename_i none
    rw [List.getLast?_eq_none_iff.mp none]
    rfl

/-- The parser of a list of tokens stands before all of them up to the first end mark. -/
theorem ofList_eq_facing (tokens : List Token) : ∃ beyond, Parser.ofList tokens =
    facing (TokenStream.ofList tokens) beyond (TokenStream.ofList tokens).pending [] := by
  suffices split : ∃ beyond, (Parser.ofList tokens).tokens =
      (TokenStream.ofList tokens).pending ++ (TokenStream.ofList tokens).last :: beyond by
    obtain ⟨beyond, split⟩ := split
    refine ⟨beyond, ?_⟩
    rw [facing, ← split, Nat.sub_self]
    rfl
  rcases TokenStream.ended_or_unended tokens with ⟨before, mark, beyond, rfl, unended, closes⟩ |
    unended
  · obtain ⟨pending, last⟩ := TokenStream.ofList_of_end beyond unended closes
    rw [pending, last]
    obtain ⟨extra, more⟩ := ofList_tokens (before ++ mark :: beyond)
    exact ⟨beyond ++ extra, by rw [more, List.append_assoc, List.cons_append]⟩
  · obtain ⟨pending, last⟩ := TokenStream.ofList_of_unended unended
    rw [pending, last]
    exact ⟨[], ofList_tokens_of_unended unended⟩

/-- A call that comes to its end in one way does not do so in another. -/
theorem Comes.unique {call : Call} {answer found : Except (List Report) Parsed} {after : Parser}
    {enough : Nat} {within : input <:+ stream.pending}
    (comes : Comes stream input within call found left)
    (answered : ∀ steps, enough ≤ steps →
      call.run steps (facing stream beyond input []) = .done answer after) :
    answer = found ∧ after = facing stream beyond left [] := by
  have same := (answered _ (Nat.le_max_left _ _)).symm.trans
    (comes.run beyond _ (Nat.le_max_right _ _))
  exact Result.done.inj same

/-- However a parser is reached, it stands before an end of the tokens in reach, and so does the
stream. -/
theorem Reached.facing {tokens : List Token} {parser : Parser}
    (reached : Reached tokens stream parser) :
    ∃ (beyond input : List Token) (within : input <:+ (TokenStream.ofList tokens).pending),
      stream = (TokenStream.ofList tokens).leave input within ∧
        parser = Parser.facing (TokenStream.ofList tokens) beyond input [] := by
  induction reached with
  | fresh =>
    obtain ⟨beyond, start⟩ := ofList_eq_facing tokens
    exact ⟨beyond, _, List.suffix_rfl, rfl, start⟩
  | called before call enough answered ih =>
    obtain ⟨beyond, input, within, rfl, rfl⟩ := ih
    obtain ⟨found, left, comes⟩ := call_comes within call
    obtain ⟨rfl, rfl⟩ := comes.unique answered
    exact ⟨beyond, left, comes.left_within.trans within, by rw [comes.onStream], rfl⟩

/-- The call gives this answer and leaves the parser like this, if it may take enough steps for a
parser of tokens whose first end mark is at the place `last`. -/
structure Call.MovesForward (last : Nat) (call : Call) (parser : Parser)
    (answer : Except (List Report) Parsed) (after : Parser) : Prop where
  answers : ∀ steps, (last + 1) * 20 ≤ steps → call.run steps parser = .done answer after
  onward : parser.current ≤ after.current
  within : after.current ≤ last
  visits : after.trail =
    parser.trail ++ List.range' (parser.current + 1) (after.current - parser.current)
  reaches : call = .program → after.current = last
  ascending : ∀ reports, answer = .error reports → Ascending parser.tokens last reports

theorem Comes.movesForward {call : Call} {answer : Except (List Report) Parsed}
    {within : input <:+ stream.pending} (comes : Comes stream input within call answer left) :
    call.MovesForward stream.pending.length (facing stream beyond input []) answer
      (facing stream beyond left []) := by
  have shorter := comes.left_within.length_le
  have bound := within.length_le
  refine ⟨?answers, ?onward, ?within, ?visits, ?reaches, ?ascending⟩
  case answers => exact fun steps enough => comes.run beyond steps enough
  case onward => exact Nat.sub_le_sub_left shorter _
  case within => exact Nat.sub_le _ _
  case visits =>
    have steps : stream.pending.length - left.length + 1 =
        stream.pending.length - input.length + 1 +
          (stream.pending.length - left.length - (stream.pending.length - input.length)) := by
      omega
    have zero := Nat.zero_add (stream.pending.length - input.length + 1)
    simp only [facing, List.range_eq_range']
    nth_rewrite 2 [← zero]
    rw [List.range'_append_1, ← steps]
  case reaches =>
    intro isProgram
    rw [comes.reaches isProgram]
    rfl
  case ascending =>
    intro reports refused
    obtain ⟨complaints, rfl, orderly⟩ := comes.orderly reports refused
    exact ascending_of_orderly orderly within

/-- Every call of a parser that is fresh, or has been called before, comes to an end without
reading where there is no token. Its cursor goes from place to place and not beyond the first end
mark, which the parse of a program reaches; its reports are in order; it finds what the stream
does; and what stands behind the first end mark makes no difference. -/
theorem calls_move_forward {tokens : List Token} {stream : TokenStream} {parser : Parser}
    (reached : Reached tokens stream parser) (call : Call) :
    ∃ answer after, call.MovesForward (Token.endPlace tokens) parser answer after ∧
      (call.onStream stream).1 = plain answer ∧
      ∀ {tokens' : List Token} {stream' : TokenStream} {parser' : Parser},
        tokens'.take (Token.endPlace tokens' + 1) = tokens.take (Token.endPlace tokens + 1) →
        Reached tokens' stream' parser' → parser'.current = parser.current →
        ∃ after', call.MovesForward (Token.endPlace tokens) parser' answer after' ∧
          after'.current = after.current := by
  obtain ⟨beyond, input, within, rfl, rfl⟩ := reached.facing
  obtain ⟨answer, left, comes⟩ := call_comes within call
  rw [← TokenStream.length_pending]
  refine ⟨answer, _, comes.movesForward, by rw [comes.onStream], ?_⟩
  intro tokens' stream' parser' alike reached' place
  have same : TokenStream.ofList tokens' = TokenStream.ofList tokens := by
    rw [TokenStream.length_pending] at alike
    rw [← TokenStream.ofList_take tokens', alike, TokenStream.ofList_take]
  have standing := reached'.facing
  rw [same] at standing
  obtain ⟨beyond', input', within', _, rfl⟩ := standing
  obtain rfl : input' = input := by
    have bound := within.length_le
    have bound' := within'.length_le
    have alike : input'.length = input.length := by
      simp only [facing] at place
      omega
    exact (List.suffix_of_suffix_length_le within' within alike.le).eq_of_length alike
  exact ⟨_, comes.movesForward, rfl⟩

/-- Two expressions are missing, the second in a block that is never closed. -/
theorem calls_move_forward_in_open_block :
    let tokens : List Token :=
      [Tag.semicolon.mark ";", Tag.leftBrace.mark "\x7b", Tag.semicolon.mark ";"]
    Reached tokens (TokenStream.ofList tokens) (Parser.ofList tokens) ∧
      ∃ reports after, Call.program.MovesForward 3 (Parser.ofList tokens) (.error reports) after ∧
        reports.map (fun report => (report.cause, report.place)) =
          [(.expected .expression, 0), (.expected .expression, 2), (.expected .blockEnd, 3)] ∧
        after.trail = [0, 1, 2, 3] := by
  intro tokens
  have reached : Reached tokens _ _ := .fresh
  obtain ⟨answer, after, forward, _⟩ := calls_move_forward reached .program
  obtain ⟨reports, left, ran, causes, trail⟩ : ∃ reports left,
      Call.program.run 80 (Parser.ofList tokens) = .done (.error reports) left ∧
        reports.map (fun report => (report.cause, report.place)) =
          [(.expected .expression, 0), (.expected .expression, 2), (.expected .blockEnd, 3)] ∧
        left.trail = [0, 1, 2, 3] := ⟨_, _, rfl, rfl, rfl⟩
  obtain ⟨rfl, rfl⟩ := Result.done.inj ((forward.answers 80 (by decide)).symm.trans ran)
  exact ⟨reached, reports, after, forward, causes, trail⟩

end Parser
end Script
