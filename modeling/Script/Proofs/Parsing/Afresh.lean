import Script.Proofs.Parsing.Forward

/-! A parser keeps nothing but its place. A call of one that has been called before goes as the same
call of a fresh one that is given the tokens from that place on. -/

namespace Script.Parser

variable {stream : TokenStream} {tokens beyond input : List Token} {parser after : Parser}
  {call : Call} {answer : Except (List Report) Parsed}

/-- The call gives this answer if it may take enough steps, passes over so many tokens, and leaves
no report behind. -/
def Call.Answers (call : Call) (parser : Parser) (answer : Except (List ParseError) Parsed)
    (taken : Nat) : Prop :=
  ∃ enough reported after,
    (∀ steps, enough ≤ steps → call.run steps parser = .done reported after) ∧
    plain reported = answer ∧ after.current = parser.current + taken ∧
    after.tokens = parser.tokens ∧ after.reports = []

theorem Call.Answers.unique {answer answer' : Except (List ParseError) Parsed} {taken taken' : Nat}
    (first : call.Answers parser answer taken) (second : call.Answers parser answer' taken') :
    answer = answer' ∧ taken = taken' := by
  obtain ⟨enough, reported, after, answered, rfl, moved, _⟩ := first
  obtain ⟨enough', reported', after', answered', rfl, moved', _⟩ := second
  have same := (answered _ (Nat.le_max_left _ _)).symm.trans (answered' _ (Nat.le_max_right _ _))
  obtain ⟨rfl, rfl⟩ := Result.done.inj same
  exact ⟨rfl, Nat.add_left_cancel (moved.symm.trans moved')⟩

/-- A call before some tokens takes those that it does not leave. -/
theorem Comes.answers {within : input <:+ stream.pending} {left : List Token}
    (comes : Comes stream input within call answer left) (beyond : List Token) :
    call.Answers (facing stream beyond input []) (plain answer) (input.length - left.length) := by
  refine ⟨_, answer, facing stream beyond left [], comes.run beyond, rfl, ?_, rfl, rfl⟩
  have shorter := comes.left_within.length_le
  have bound := within.length_le
  simp only [facing]
  omega

/-- The tokens from the cursor on. -/
theorem drop_facing (within : input <:+ stream.pending) :
    (facing stream beyond input []).tokens.drop (facing stream beyond input []).current =
      input ++ stream.last :: beyond := by
  obtain ⟨before, all, place⟩ := exists_tokens_facing beyond [] within
  rw [all, place, List.append_assoc, List.drop_left]

/-- The stream of the tokens from the cursor on is what is left of the stream. -/
theorem ofList_facing (within : input <:+ stream.pending) :
    TokenStream.ofList (input ++ stream.last :: beyond) = stream.leave input within := by
  have unended (token : Token) (member : token ∈ input) :=
    stream.pending_open token (within.subset member)
  obtain ⟨pending, last⟩ := TokenStream.ofList_of_end beyond unended stream.last_closes
  exact TokenStream.eq_of_parts pending last

/-- The answer depends on the tokens from the cursor on alone. -/
theorem answers_afresh (beyond : List Token) (within : input <:+ stream.pending) (call : Call) :
    ∃ answer taken, call.Answers (facing stream beyond input []) answer taken ∧
      call.Answers (ofList (input ++ stream.last :: beyond)) answer taken := by
  obtain ⟨answer, left, comes⟩ := call_comes within call
  obtain ⟨beyond', fresh⟩ := ofList_eq_facing (input ++ stream.last :: beyond)
  rw [ofList_facing within] at fresh
  obtain ⟨answer', left', comes'⟩ :=
    call_comes (List.suffix_refl (stream.leave input within).pending) call
  have same := comes.onStream.symm.trans comes'.onStream
  obtain ⟨sameAnswer, sameLeft⟩ := Prod.mk.inj same
  obtain rfl : left = left' := congrArg TokenStream.pending sameLeft
  refine ⟨plain answer, _, comes.answers beyond, ?_⟩
  rw [fresh, sameAnswer]
  exact comes'.answers beyond'

/-- No call changes the tokens. -/
theorem Reached.tokens_eq (reached : Reached tokens stream parser) :
    parser.tokens = (ofList tokens).tokens := by
  induction reached with
  | fresh => rfl
  | called before call enough answered ih =>
    obtain ⟨beyond, input, within, rfl, rfl⟩ := before.facing
    obtain ⟨found, left, comes⟩ := call_comes within call
    obtain ⟨_, rfl⟩ := comes.unique answered
    exact ih

/-- A parser that has been reached can be called again. -/
theorem Reached.next (reached : Reached tokens stream parser) (call : Call) :
    ∃ answer after, (∀ steps, (Token.endPlace tokens + 1) * 20 ≤ steps →
      call.run steps parser = .done answer after) ∧
      Reached tokens (call.onStream stream).2 after := by
  have again := reached
  obtain ⟨beyond, input, within, rfl, rfl⟩ := again.facing
  obtain ⟨answer, left, comes⟩ := call_comes within call
  have answered := comes.run beyond
  rw [TokenStream.length_pending] at answered
  exact ⟨answer, _, answered, reached.called call _ answered⟩

theorem ofList_of_closed {mark : Token} (found : tokens.getLast? = some mark)
    (closes : mark.is .endOfText = true) : (ofList tokens).tokens = tokens := by
  simp only [ofList, found, closes, if_true]

theorem ofList_of_open {mark : Token} (found : tokens.getLast? = some mark)
    (opens : ¬mark.is .endOfText = true) :
    (ofList tokens).tokens = tokens ++ [TokenStream.missingLast tokens] := by
  simp only [ofList, found, if_neg opens]

/-- As long as there is a token left, a fresh parser supplies the end mark that is there. -/
theorem ofList_drop {place : Nat} (inside : place < tokens.length) :
    ofList (tokens.drop place) = ofList ((ofList tokens).tokens.drop place) := by
  have last : (tokens.drop place).getLast? = tokens.getLast? := by
    rw [List.getLast?_drop, if_neg (Nat.not_le.mpr inside)]
  obtain ⟨mark, found⟩ : ∃ mark, tokens.getLast? = some mark :=
    ⟨_, List.getLast?_eq_getLast_of_ne_nil (List.ne_nil_of_length_pos (Nat.zero_lt_of_lt inside))⟩
  suffices same : (ofList (tokens.drop place)).tokens =
      (ofList ((ofList tokens).tokens.drop place)).tokens from
    congrArg (Parser.mk · 0 [0] []) same
  by_cases closes : mark.is .endOfText = true
  · rw [ofList_of_closed found closes]
  · have missing : TokenStream.missingLast (tokens.drop place) =
        TokenStream.missingLast tokens := by
      rw [TokenStream.missingLast, last, TokenStream.missingLast]
    rw [ofList_of_open found closes, ofList_of_open (last.trans found) closes, missing,
      List.drop_append_of_le_length (Nat.le_of_lt inside)]
    exact (ofList_of_closed List.getLast?_concat rfl).symm

/-- A call is answered from the tokens from the cursor on and from nothing else: a fresh parser of
these gives the same answer and moves on by the same number of tokens, and so does every other
parser that is left with the same tokens. No report outlasts its call. -/
theorem calls_begin_afresh (reached : Reached tokens stream parser) (call : Call) :
    ∃ answer taken, call.Answers parser answer taken ∧
      call.Answers (ofList (parser.tokens.drop parser.current)) answer taken ∧
      (parser.current < tokens.length →
        ofList (tokens.drop parser.current) = ofList (parser.tokens.drop parser.current)) ∧
      ∀ {tokens' : List Token} {stream' : TokenStream} {parser' : Parser},
        Reached tokens' stream' parser' →
        parser'.tokens.drop parser'.current = parser.tokens.drop parser.current →
        call.Answers parser' answer taken := by
  have all := reached.tokens_eq
  obtain ⟨beyond, input, within, rfl, rfl⟩ := reached.facing
  obtain ⟨answer, taken, answers, fresh⟩ := answers_afresh beyond within call
  rw [drop_facing within]
  refine ⟨answer, taken, answers, fresh, fun inside => ?_, ?_⟩
  · rw [ofList_drop inside, ← all, drop_facing within]
  · intro tokens' stream' parser' reached' alike
    obtain ⟨beyond', input', within', _, rfl⟩ := reached'.facing
    rw [drop_facing within'] at alike
    obtain ⟨answer', taken', answers', fresh'⟩ := answers_afresh beyond' within' call
    rw [alike] at fresh'
    obtain ⟨rfl, rfl⟩ := fresh.unique fresh'
    exact answers'

/-- Where an expression stops at a token that does not belong to it, a program is parsed as by a
fresh parser of that token. -/
theorem calls_begin_afresh_behind_expression :
    ∃ stream parser,
      Reached [Tag.nilKeyword.mark "nil", Tag.semicolon.mark ";"] stream parser ∧
      parser.current = 1 ∧ ∃ answer taken, Call.program.Answers parser answer taken ∧
        Call.program.Answers (ofList (parser.tokens.drop parser.current)) answer taken := by
  have start : Reached [Tag.nilKeyword.mark "nil", Tag.semicolon.mark ";"] _ _ := .fresh
  obtain ⟨found, parser, answered, reached⟩ := start.next .expression
  refine ⟨_, parser, reached, ?_, ?_⟩
  · have ended := (answered 60 (by decide)).symm
    exact congrArg Parser.current (Result.done.inj ended).2
  · obtain ⟨answer, taken, answers, afresh, _⟩ := calls_begin_afresh reached .program
    exact ⟨answer, taken, answers, afresh⟩

end Script.Parser
