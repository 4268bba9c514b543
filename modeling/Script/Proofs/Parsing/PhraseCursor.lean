import Script.Proofs.Parsing.Continuation
import Script.Proofs.Parsing.Cursor

/-! The cursor follows the expression rules: given enough steps, it reads what they read, with the
same tree and the same reports. -/

namespace Script

theorem Rule.any_nextIs_nil (tags : List Tag) : tags.any (nextIs · []) = false := by
  simp [nextIs]

namespace Parser

variable {stream : TokenStream} {beyond : List Token} {input after : List Token} {token : Token}
  {steps : Nat}

namespace Follows

/-- What becomes of a value and the target that it is assigned to, which may be noted at the equals
sign that was passed over. -/
theorem judged {target : Expr} (within : token :: after <:+ stream.pending)
    (value : Follows stream beyond (expression steps) (Rule.expression after)) :
    Follows stream beyond
      (do
        let blamed ← blamePrevious .invalidTarget
        let value ← expression steps
        match target.assigned? value with
        | some assignment => return assignment
        | none =>
          Run.note blamed
          return target)
      ((Rule.expression after).settle (Rule.judged target token after)) := by
  intro reports
  refine (Run.bind_of_done (blamePrevious_facing within)).trans ?_
  have start := value reports
  cases outcome : Rule.expression after with
  | stopped complaint within notes =>
    rw [outcome] at start
    exact Run.bind_of_raised start
  | accepted value rest moved notes =>
    rw [outcome] at start
    refine (Run.bind_of_done start).trans ?_
    simp only [Outcome.settle, Outcome.shown, Rule.judged, List.map_append, ← List.append_assoc]
    cases target.assigned? value with
    | some assignment =>
      simp only [List.map_nil, List.append_nil]
      rfl
    | none => rfl

end Follows

section Rules

theorem expression_tracks
    (target : Tracks stream beyond (input.length * 20 + 14) (layered · .disjunction)
      (Rule.layered .disjunction input))
    (value : ∀ sign after, Moved true (sign :: after) input →
      Tracks stream beyond (after.length * 20 + 15) expression (Rule.expression after)) :
    Tracks stream beyond (input.length * 20 + 15) expression (Rule.expression input) := by
  refine Tracks.of_succ fun within steps enough => ?_
  rw [Rule.expression_eq]
  refine (target within steps (by omega)).andThen fun target rest moved => ?_
  refine Follows.optional rfl (fun sign after other => if_neg other)
    (fun sign after equals => if_pos equals) (moved.1.trans within) ?_
  rintro sign after rfl _
  have inner := moved.1.trans within
  have shorter := moved.length_lt
  rw [List.length_cons] at shorter
  exact Follows.judged inner
    (value sign after moved ((List.suffix_cons sign after).trans inner) steps (by omega))

theorem layered_tracks {layer : Layer}
    (first : Tracks stream beyond (input.length * 20 + 2 * layer.depth + 1) (operand · layer)
      (Rule.operand layer input))
    (others : ∀ left rest, Moved true rest input →
      Tracks stream beyond (rest.length * 20) (joined · layer left) (Rule.joined layer left rest)) :
    Tracks stream beyond (input.length * 20 + 2 * layer.depth + 2) (layered · layer)
      (Rule.layered layer input) := by
  refine Tracks.of_succ fun within steps enough => ?_
  rw [Rule.layered]
  refine (first within steps (by omega)).andThen fun left rest moved => ?_
  have shorter := moved.length_lt
  exact others left rest moved (moved.1.trans within) steps (by omega)

theorem operand_tracks_layered {layer inner : Layer} (found : layer.tighter? = some inner)
    (tracks : Tracks stream beyond (input.length * 20 + 2 * inner.depth + 2) (layered · inner)
      (Rule.layered inner input)) :
    Tracks stream beyond (input.length * 20 + 2 * layer.depth + 1) (operand · layer)
      (Rule.operand layer input) := by
  refine Tracks.of_succ fun within steps enough => ?_
  have tighter := Layer.depth_tighter found
  rw [Rule.operand_of_some found, operand, found]
  exact tracks within steps (by omega)

theorem operand_tracks_signed {layer : Layer} (found : layer.tighter? = none)
    (tracks : Tracks stream beyond (input.length * 20 + 2) signed (Rule.signed input)) :
    Tracks stream beyond (input.length * 20 + 2 * layer.depth + 1) (operand · layer)
      (Rule.operand layer input) := by
  refine Tracks.of_succ fun within steps enough => ?_
  have positive := layer.depth_pos
  rw [Rule.operand_of_none found, operand, found]
  exact tracks within steps (by omega)

theorem joined_tracks {layer : Layer} {left : Expr} (joins : layer.joins token = true)
    (right : Tracks stream beyond (after.length * 20 + 2 * layer.depth + 1) (operand · layer)
      (Rule.operand layer after))
    (others : ∀ right rest, Moved true rest after →
      Tracks stream beyond (rest.length * 20) (joined · layer (layer.join left token right))
        (Rule.joined layer (layer.join left token right) rest)) :
    Tracks stream beyond ((token :: after).length * 20) (joined · layer left)
      (Rule.joined layer left (token :: after)) := by
  refine Tracks.of_succ fun within steps enough => ?_
  have depth := layer.depth_le
  have inner := (List.suffix_cons token after).trans within
  rw [List.length_cons] at enough
  rw [Rule.joined_more joins]
  refine Follows.acceptedAny joins within ?_
  refine (right inner steps (by omega)).andThen fun right rest moved => ?_
  have shorter := moved.length_lt
  exact others right rest moved (moved.1.trans inner) steps (by omega)

theorem joined_tracks_end {layer : Layer} {left : Expr} :
    Tracks stream beyond (([] : List Token).length * 20) (joined · layer left)
      (Rule.joined layer left []) := by
  refine Tracks.of_succ fun within steps enough => ?_
  rw [Rule.joined_nil]
  exact Follows.refusedAny (Rule.any_nextIs_nil _) within (.done left)

theorem joined_tracks_other {layer : Layer} {left : Expr} (other : ¬layer.joins token = true) :
    Tracks stream beyond ((token :: after).length * 20) (joined · layer left)
      (Rule.joined layer left (token :: after)) := by
  refine Tracks.of_succ fun within steps enough => ?_
  rw [Rule.joined_other other]
  exact Follows.refusedAny (Bool.eq_false_iff.mpr other) within (.done left)

theorem signed_tracks (found : (token.is .bang || token.is .minus) = true)
    (tracks : Tracks stream beyond (after.length * 20 + 2) signed (Rule.signed after)) :
    Tracks stream beyond ((token :: after).length * 20 + 2) signed
      (Rule.signed (token :: after)) := by
  refine Tracks.of_succ fun within steps enough => ?_
  rw [List.length_cons] at enough
  rw [Rule.signed_more found]
  refine Follows.acceptedAny (by simpa using found) within ?_
  exact (tracks ((List.suffix_cons token after).trans within) steps (by omega)).map

theorem signed_tracks_suffixed
    (other : ([.bang, .minus] : List Tag).any (Rule.nextIs · input) = false)
    (same : Rule.signed input = Rule.suffixed input)
    (tracks : Tracks stream beyond (input.length * 20 + 1) suffixed (Rule.suffixed input)) :
    Tracks stream beyond (input.length * 20 + 2) signed (Rule.signed input) := by
  refine Tracks.of_succ fun within steps enough => ?_
  rw [same]
  exact Follows.refusedAny other within (tracks within steps (by omega))

theorem suffixed_tracks
    (object : Tracks stream beyond (input.length * 20) primary (Rule.primary input))
    (others : ∀ object rest, Moved true rest input →
      Tracks stream beyond (rest.length * 20) (suffixes · object) (Rule.suffixes object rest)) :
    Tracks stream beyond (input.length * 20 + 1) suffixed (Rule.suffixed input) := by
  refine Tracks.of_succ fun within steps enough => ?_
  rw [Rule.suffixed]
  refine (object within steps (by omega)).andThen fun object rest moved => ?_
  have shorter := moved.length_lt
  exact others object rest moved (moved.1.trans within) steps (by omega)

theorem suffixes_tracks_call {object : Expr} (opens : token.is .leftParen = true)
    (inner : Tracks stream beyond (after.length * 20 + 17) (listed · .rightParen true)
      (Rule.listed .rightParen true after))
    (others : ∀ arguments rest, Moved false rest after → ∀ paren behind, Moved true behind rest →
      Tracks stream beyond (behind.length * 20) (suffixes · (.call object paren arguments))
        (Rule.suffixes (.call object paren arguments) behind)) :
    Tracks stream beyond ((token :: after).length * 20) (suffixes · object)
      (Rule.suffixes object (token :: after)) := by
  refine Tracks.of_succ fun within steps enough => ?_
  have inside := (List.suffix_cons token after).trans within
  rw [List.length_cons] at enough
  rw [Rule.suffixes_call opens]
  refine Follows.accepted opens within ?_
  refine (inner inside steps (by omega)).andThen fun arguments rest moved => ?_
  have inRest := moved.1.trans inside
  refine (Follows.expect inRest).andThen fun paren behind moved' => ?_
  have shorter := moved.length_le
  have shorter' := moved'.length_lt
  exact others arguments rest moved paren behind moved' (moved'.1.trans inRest) steps (by omega)

theorem suffixes_tracks_subscript {object : Expr} (opens : token.is .leftBracket = true)
    (inner : Tracks stream beyond (after.length * 20 + 15) expression (Rule.expression after))
    (others : ∀ index rest, Moved true rest after → ∀ bracket behind, Moved true behind rest →
      Tracks stream beyond (behind.length * 20) (suffixes · (.subscript object bracket index))
        (Rule.suffixes (.subscript object bracket index) behind)) :
    Tracks stream beyond ((token :: after).length * 20) (suffixes · object)
      (Rule.suffixes object (token :: after)) := by
  refine Tracks.of_succ fun within steps enough => ?_
  have inside := (List.suffix_cons token after).trans within
  rw [List.length_cons] at enough
  rw [Rule.suffixes_subscript opens]
  refine Follows.refused_of_is opens (by decide) within ?_
  refine Follows.accepted opens within ?_
  refine (inner inside steps (by omega)).andThen fun index rest moved => ?_
  have inRest := moved.1.trans inside
  refine (Follows.expect inRest).andThen fun bracket behind moved' => ?_
  have shorter := moved.length_lt
  have shorter' := moved'.length_lt
  exact others index rest moved bracket behind moved' (moved'.1.trans inRest) steps (by omega)

theorem suffixes_tracks_other {object : Expr} (noCall : Rule.nextIs .leftParen input = false)
    (noSubscript : Rule.nextIs .leftBracket input = false)
    (same : Rule.suffixes object input = .done object) :
    Tracks stream beyond (input.length * 20) (suffixes · object) (Rule.suffixes object input) := by
  refine Tracks.of_succ fun within steps enough => ?_
  rw [same]
  exact Follows.refused noCall within (Follows.refused noSubscript within (.done object))

theorem listed_tracks {closer : Tag} {limited : Bool}
    (items : ¬Rule.nextIs closer input = true →
      Tracks stream beyond (input.length * 20 + 16) (separated · limited 0)
        (Rule.separated limited 0 input)) :
    Tracks stream beyond (input.length * 20 + 17) (listed · closer limited)
      (Rule.listed closer limited input) := by
  refine Tracks.of_succ fun within steps enough => ?_
  rw [Rule.listed]
  refine Follows.orNothing within fun more => ?_
  exact (items (by simp [more]) within steps (by omega)).relax

theorem separated_tracks {limited : Bool} {count : Nat}
    (first : Tracks stream beyond (input.length * 20 + 15) expression (Rule.expression input))
    (others : ∀ comma after, Moved true (comma :: after) input →
      Tracks stream beyond (after.length * 20 + 16) (separated · limited (count + 1))
        (Rule.separated limited (count + 1) after)) :
    Tracks stream beyond (input.length * 20 + 16) (separated · limited count)
      (Rule.separated limited count input) := by
  refine Tracks.of_succ fun within steps enough => ?_
  rw [Rule.separated_eq, Outcome.noting_andThen]
  refine Follows.noting _ within ?_
  refine (first within steps (by omega)).andThen fun item rest moved => ?_
  refine Follows.optional rfl (fun comma after other => if_neg other)
    (fun comma after between => if_pos between) (moved.1.trans within) ?_
  rintro comma after rfl _
  have inner := moved.1.trans within
  have shorter := moved.length_lt
  rw [List.length_cons] at shorter
  exact (others comma after moved ((List.suffix_cons comma after).trans inner) steps
    (by omega)).map

/-- What a primary is that begins with none of the keywords for literals. -/
theorem primary_tracks_other {outcome : Outcome Expr true input} {cost : Nat}
    (noFalse : Rule.nextIs .falseKeyword input = false)
    (noTrue : Rule.nextIs .trueKeyword input = false)
    (noNil : Rule.nextIs .nilKeyword input = false)
    (follows : input <:+ stream.pending → ∀ steps, cost ≤ steps → Follows stream beyond
      (match (input.headD stream.last).kind with
      | .number value => do
        let _ ← advance
        return .literal (.number value)
      | .string text => do
        let _ ← advance
        return .literal (.string text)
      | .plain _ => do
        if ← accept .identifier then return .reference (← previous)
        else if ← accept .leftParen then
          let inner ← expression steps
          let _ ← consume .rightParen .groupEnd
          return .grouping inner
        else if ← accept .leftBracket then
          let elements ← listed steps .rightBracket false
          let bracket ← consume .rightBracket .elementsEnd
          return .array bracket elements
        else Run.raise (← blamePeek (.expected .expression))) outcome) :
    Tracks stream beyond cost primary outcome := by
  refine Tracks.of_succ fun within steps enough => ?_
  refine Follows.refused noFalse within (Follows.refused noTrue within ?_)
  exact Follows.refused noNil within (Follows.peeked within (follows within steps enough))

theorem primary_tracks_keyword {tag : Tag} (kind : token.kind = .plain tag) {tree : Expr}
    (leaf : token.leaf? = some tree)
    (keyword : tag ∈ [Tag.falseKeyword, .trueKeyword, .nilKeyword]) :
    Tracks stream beyond ((token :: after).length * 20) primary
      (Rule.primary (token :: after)) := by
  refine Tracks.of_succ fun within steps enough => ?_
  have found : token.is tag = true := Token.is_iff.mpr kind
  rw [Rule.primary_leaf leaf]
  unfold Token.leaf? at leaf
  rw [kind] at leaf
  simp only [List.mem_cons, List.not_mem_nil, or_false] at keyword
  rcases keyword with rfl | rfl | rfl <;> cases leaf
  · exact Follows.accepted found within (.done _)
  · refine Follows.refused_of_is found (by decide) within ?_
    exact Follows.accepted found within (.done _)
  · iterate 2 refine Follows.refused_of_is found (by decide) within ?_
    exact Follows.accepted found within (.done _)

/-- A literal whose value is part of its token. -/
theorem Follows.passed {tree : Expr} (within : token :: after <:+ stream.pending) :
    Follows stream beyond
      (do
        let _ ← advance
        return tree)
      ((Outcome.done tree : Outcome Expr false after).behind token : Outcome Expr true _) := by
  intro reports
  rw [Outcome.shown_behind]
  exact (Run.bind_of_done (advance_facing within)).trans (Follows.done tree reports)

theorem primary_tracks_number {value : Float} (kind : token.kind = .number value) :
    Tracks stream beyond ((token :: after).length * 20) primary
      (Rule.primary (token :: after)) := by
  have other (tag : Tag) : Rule.nextIs tag (token :: after) = false := by
    simp [Rule.nextIs, Token.is, kind, Kind.tag?]
  refine primary_tracks_other (other _) (other _) (other _) fun within steps enough => ?_
  have leaf : token.leaf? = some (.literal (.number value)) := by rw [Token.leaf?, kind]
  simp only [List.headD_cons, kind]
  exact Rule.primary_leaf leaf ▸ Follows.passed within

theorem primary_tracks_string {text : String} (kind : token.kind = .string text) :
    Tracks stream beyond ((token :: after).length * 20) primary
      (Rule.primary (token :: after)) := by
  have other (tag : Tag) : Rule.nextIs tag (token :: after) = false := by
    simp [Rule.nextIs, Token.is, kind, Kind.tag?]
  refine primary_tracks_other (other _) (other _) (other _) fun within steps enough => ?_
  have leaf : token.leaf? = some (.literal (.string text)) := by rw [Token.leaf?, kind]
  simp only [List.headD_cons, kind]
  exact Rule.primary_leaf leaf ▸ Follows.passed within

theorem primary_tracks_name (kind : token.kind = .plain .identifier) :
    Tracks stream beyond ((token :: after).length * 20) primary
      (Rule.primary (token :: after)) := by
  have found : token.is .identifier = true := Token.is_iff.mpr kind
  have other (tag : Tag) (different : Tag.identifier ≠ tag) :
      Rule.nextIs tag (token :: after) = false := Token.is_eq_false found tag different
  refine primary_tracks_other (other _ (by decide)) (other _ (by decide)) (other _ (by decide))
    fun within steps enough => ?_
  have leaf : token.leaf? = some (.reference token) := by rw [Token.leaf?, kind]
  simp only [List.headD_cons, kind]
  rw [Rule.primary_leaf leaf]
  refine Follows.accepted found within fun reports => ?_
  exact (Run.bind_of_done (previous_facing within)).trans (Follows.done _ reports)

theorem primary_tracks_group (kind : token.kind = .plain .leftParen)
    (inner : Tracks stream beyond (after.length * 20 + 15) expression (Rule.expression after)) :
    Tracks stream beyond ((token :: after).length * 20) primary
      (Rule.primary (token :: after)) := by
  have found : token.is .leftParen = true := Token.is_iff.mpr kind
  have other (tag : Tag) (different : Tag.leftParen ≠ tag) :
      Rule.nextIs tag (token :: after) = false := Token.is_eq_false found tag different
  refine primary_tracks_other (other _ (by decide)) (other _ (by decide)) (other _ (by decide))
    fun within steps enough => ?_
  have inside := (List.suffix_cons token after).trans within
  rw [List.length_cons] at enough
  simp only [List.headD_cons, kind]
  rw [Rule.primary_group kind]
  refine Follows.refused_of_is found (by decide) within ?_
  refine Follows.accepted found within ?_
  refine (inner inside steps (by omega)).andThen fun tree rest moved => ?_
  exact (Follows.expect (moved.1.trans inside)).map

theorem primary_tracks_array (kind : token.kind = .plain .leftBracket)
    (inner : Tracks stream beyond (after.length * 20 + 17) (listed · .rightBracket false)
      (Rule.listed .rightBracket false after)) :
    Tracks stream beyond ((token :: after).length * 20) primary
      (Rule.primary (token :: after)) := by
  have found : token.is .leftBracket = true := Token.is_iff.mpr kind
  have other (tag : Tag) (different : Tag.leftBracket ≠ tag) :
      Rule.nextIs tag (token :: after) = false := Token.is_eq_false found tag different
  refine primary_tracks_other (other _ (by decide)) (other _ (by decide)) (other _ (by decide))
    fun within steps enough => ?_
  have inside := (List.suffix_cons token after).trans within
  rw [List.length_cons] at enough
  simp only [List.headD_cons, kind]
  rw [Rule.primary_array kind]
  iterate 2 refine Follows.refused_of_is found (by decide) within ?_
  refine Follows.accepted found within ?_
  refine (inner inside steps (by omega)).andThen fun elements rest moved => ?_
  exact (Follows.expect (moved.1.trans inside)).map

/-- Where nothing begins a primary, the next token is blamed. -/
theorem primary_tracks_stop {tag : Tag} (kind : (input.headD stream.last).kind = .plain tag)
    (other : ∀ tag ∈ [Tag.falseKeyword, .trueKeyword, .nilKeyword, .identifier, .leftParen,
      .leftBracket], Rule.nextIs tag input = false)
    (same : Rule.primary input = .stop .expression) :
    Tracks stream beyond (input.length * 20) primary (Rule.primary input) := by
  refine primary_tracks_other (other _ (by decide)) (other _ (by decide)) (other _ (by decide))
    fun within steps enough => ?_
  rw [kind, same]
  iterate 3 refine Follows.refused (other _ (by decide)) within ?_
  exact Follows.raise_peek within

end Rules

/-- The cursor tracks every expression rule. -/
theorem expressions_track (stream : TokenStream) (beyond : List Token) :
    (∀ input, Tracks stream beyond (input.length * 20 + 15) expression (Rule.expression input)) ∧
    (∀ layer input, Tracks stream beyond (input.length * 20 + 2 * layer.depth + 2)
      (layered · layer) (Rule.layered layer input)) ∧
    (∀ layer left input, Tracks stream beyond (input.length * 20) (joined · layer left)
      (Rule.joined layer left input)) ∧
    (∀ layer input, Tracks stream beyond (input.length * 20 + 2 * layer.depth + 1)
      (operand · layer) (Rule.operand layer input)) ∧
    (∀ input, Tracks stream beyond (input.length * 20 + 2) signed (Rule.signed input)) ∧
    (∀ input, Tracks stream beyond (input.length * 20 + 1) suffixed (Rule.suffixed input)) ∧
    (∀ object input, Tracks stream beyond (input.length * 20) (suffixes · object)
      (Rule.suffixes object input)) ∧
    (∀ closer limited input, Tracks stream beyond (input.length * 20 + 17)
      (listed · closer limited) (Rule.listed closer limited input)) ∧
    (∀ limited count input, Tracks stream beyond (input.length * 20 + 16)
      (separated · limited count) (Rule.separated limited count input)) ∧
    ∀ input, Tracks stream beyond (input.length * 20) primary (Rule.primary input) := by
  refine Rule.expression.mutual_induct _ _ _ _ _ _ _ _ _ _ ?expression ?layered ?joinedEnd
    ?joinedMore ?joinedOther ?operandLayer ?operandSigned ?signedEnd ?signedMore ?signedOther
    ?suffixed ?suffixesEnd ?suffixesCall ?suffixesSubscript ?suffixesOther ?listedNone ?listedSome
    ?separated ?primaryEnd ?number ?string ?falsehood ?truth ?nil ?name ?group ?array
    ?primaryOther
  case expression => exact fun input => expression_tracks
  case layered => exact fun layer input => layered_tracks
  case joinedEnd => exact fun layer left => joined_tracks_end
  case joinedMore => exact fun layer left operator after => joined_tracks
  case joinedOther => exact fun layer left operator after => joined_tracks_other
  case operandLayer => exact fun layer input inner => operand_tracks_layered
  case operandSigned => exact fun layer input => operand_tracks_signed
  case signedEnd => exact signed_tracks_suffixed (Rule.any_nextIs_nil _) Rule.signed_nil
  case signedMore => exact fun operator after => signed_tracks
  case signedOther =>
    intro operator after other
    exact signed_tracks_suffixed (by simpa [Rule.nextIs] using other) (Rule.signed_other other)
  case suffixed => exact fun input => suffixed_tracks
  case suffixesEnd => exact fun object => suffixes_tracks_other rfl rfl Rule.suffixes_nil
  case suffixesCall => exact fun object opening after => suffixes_tracks_call
  case suffixesSubscript => exact fun object opening after _ => suffixes_tracks_subscript
  case suffixesOther =>
    intro object opening after noCall noSubscript
    exact suffixes_tracks_other (Bool.eq_false_iff.mpr noCall) (Bool.eq_false_iff.mpr noSubscript)
      (Rule.suffixes_other noCall noSubscript)
  case listedNone =>
    exact fun closer limited input closes => listed_tracks fun more => absurd closes more
  case listedSome => exact fun closer limited input more ih => listed_tracks fun _ => ih
  case separated => exact fun limited count input => separated_tracks
  case primaryEnd =>
    exact primary_tracks_stop (Token.is_iff.mp stream.last_closes) (fun _ _ => rfl) Rule.primary_nil
  case number => exact fun token after value => primary_tracks_number
  case string => exact fun token after text => primary_tracks_string
  case falsehood =>
    intro token after kind
    exact primary_tracks_keyword kind (by rw [Token.leaf?, kind]) (by decide)
  case truth =>
    intro token after kind
    exact primary_tracks_keyword kind (by rw [Token.leaf?, kind]) (by decide)
  case nil =>
    intro token after kind
    exact primary_tracks_keyword kind (by rw [Token.leaf?, kind]) (by decide)
  case name => exact fun token after => primary_tracks_name
  case group => exact fun token after => primary_tracks_group
  case array => exact fun token after => primary_tracks_array
  case primaryOther =>
    intro token after noNumber noString noFalse noTrue noNil noName noGroup noArray
    obtain ⟨tag, kind⟩ : ∃ tag, token.kind = .plain tag := by
      cases shape : token.kind with
      | number value => exact (noNumber value shape).elim
      | string text => exact (noString text shape).elim
      | plain tag => exact ⟨tag, rfl⟩
    refine primary_tracks_stop kind ?_
      (Rule.primary_other noNumber noString noFalse noTrue noNil noName noGroup noArray)
    intro tag member
    refine Bool.eq_false_iff.mpr fun found => ?_
    have kind := Token.is_iff.mp found
    simp only [List.mem_cons, List.not_mem_nil, or_false] at member
    rcases member with rfl | rfl | rfl | rfl | rfl | rfl <;> simp_all

theorem expression_tracks_rule :
    Tracks stream beyond (input.length * 20 + 15) expression (Rule.expression input) :=
  (expressions_track stream beyond).1 input

end Parser
end Script
