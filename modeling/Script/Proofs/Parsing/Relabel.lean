import Script.Proofs.Parsing.Rule
import Script.Proofs.Value.Recast

/-! Parsing does not look at lines. On tokens with other lines every rule goes the same way, and
what it makes of them carries the other lines. -/

namespace Script

variable {α β : Type} {progress progress' further further' asked asked' : Bool}
  {input input' : List Token}

namespace Recast

def complaint (change : Recast) (complaint : Complaint) : Complaint :=
  ⟨complaint.cause, complaint.remaining.map change.token⟩

end Recast

theorem Rule.nextIs_map (change : Recast) (wanted : Tag) (input : List Token) :
    nextIs wanted (input.map change.token) = nextIs wanted input := by
  cases input <;> rfl

namespace Outcome

/-- Both outcomes accept or both stop, and the second is the first but for the lines. -/
inductive Relabels (change : Recast) (image : α → β) :
    Outcome α progress input → Outcome β progress' input' → Prop
  | accepted {result : α} {rest : List Token} {moved : Moved progress rest input}
    {moved' : Moved progress' (rest.map change.token) input'} {notes : List Complaint} :
    Relabels change image (.accepted result rest moved notes)
      (.accepted (image result) (rest.map change.token) moved' (notes.map change.complaint))
  | stopped {complaint : Complaint} {within : complaint.remaining <:+ input}
    {within' : (change.complaint complaint).remaining <:+ input'} {notes : List Complaint} :
    Relabels change image (.stopped complaint within notes)
      (.stopped (change.complaint complaint) within' (notes.map change.complaint))

variable {change : Recast} {γ δ : Type} {image : α → β} {farther : γ → δ}
  {outcome : Outcome α progress input} {other : Outcome β progress' input'}

theorem relabels_accepted {result : α} {result' : β} {rest rest' : List Token}
    {moved : Moved progress rest input} {moved' : Moved progress' rest' input'}
    {notes notes' : List Complaint} (sameResult : result' = image result)
    (sameRest : rest' = rest.map change.token) (sameNotes : notes' = notes.map change.complaint) :
    (Outcome.accepted result rest moved notes).Relabels change image
      (Outcome.accepted result' rest' moved' notes') := by
  subst sameResult sameRest sameNotes
  exact .accepted

theorem relabels_stopped {complaint complaint' : Complaint}
    {within : complaint.remaining <:+ input} {within' : complaint'.remaining <:+ input'}
    {notes notes' : List Complaint} (sameComplaint : complaint' = change.complaint complaint)
    (sameNotes : notes' = notes.map change.complaint) :
    (Outcome.stopped complaint within notes : Outcome α progress input).Relabels change image
      (Outcome.stopped complaint' within' notes' : Outcome β progress' input') := by
  subst sameComplaint sameNotes
  exact .stopped

theorem relabels_done (result : α) :
    (done result : Outcome α false input).Relabels change image
      (done (image result) : Outcome β false (input.map change.token)) := .accepted

theorem relabels_stop (what : Expectation) :
    (stop what : Outcome α progress input).Relabels change image
      (stop what : Outcome β progress' (input.map change.token)) := .stopped

/-- A test that does not look at lines comes out the same on both sides. -/
theorem relabels_ite {test : Bool} {outcome' : Outcome α progress input}
    {other' : Outcome β progress' input'}
    (holds : test = true → outcome.Relabels change image other)
    (fails : ¬test = true → outcome'.Relabels change image other') :
    (if test then outcome else outcome').Relabels change image
      (if test then other else other') := by
  split
  · rename_i held
    exact holds held
  · rename_i failed
    exact fails failed

theorem relabels_expect (wanted : Tag) (what : Expectation) (input : List Token) :
    (Rule.expect wanted what input).Relabels change change.token
      (Rule.expect wanted what (input.map change.token)) := by
  cases input with
  | nil => exact relabels_stop what
  | cons token after =>
    apply relabels_ite
    · intro found
      exact .accepted
    · intro other
      exact .stopped

theorem Relabels.andThen
    {next : α → (rest : List Token) → Moved progress rest input → Outcome γ further rest}
    {next' : β → (rest : List Token) → Moved progress' rest input' → Outcome δ further' rest}
    (start : outcome.Relabels change image other)
    (goOn : ∀ result rest rest' moved moved', rest' = rest.map change.token →
      (next result rest moved).Relabels change farther (next' (image result) rest' moved')) :
    (outcome.andThen next).Relabels change farther (other.andThen next') := by
  cases start with
  | stopped => exact .stopped
  | accepted =>
    rename_i result rest moved moved' notes
    have after := goOn result rest _ moved moved' rfl
    unfold Outcome.andThen
    dsimp only
    generalize next result rest moved = outcome at after
    generalize next' (image result) (rest.map change.token) moved' = other at after
    cases after with
    | stopped => exact relabels_stopped rfl List.map_append.symm
    | accepted => exact relabels_accepted rfl rfl List.map_append.symm

theorem Relabels.settle {judge : α → γ × List Complaint} {judge' : β → δ × List Complaint}
    (relabels : outcome.Relabels change image other)
    (judged : ∀ result, judge' (image result) =
      (farther (judge result).1, (judge result).2.map change.complaint)) :
    (outcome.settle judge).Relabels change farther (other.settle judge') := by
  cases relabels with
  | stopped => exact .stopped
  | accepted =>
    unfold Outcome.settle
    dsimp only
    apply relabels_accepted
    · rw [judged]
    · rfl
    · rw [judged, List.map_append]

theorem Relabels.map {make : α → γ} {make' : β → δ} (relabels : outcome.Relabels change image other)
    (made : ∀ result, make' (image result) = farther (make result)) :
    (outcome.map make).Relabels change farther (other.map make') := by
  cases relabels with
  | stopped => exact .stopped
  | accepted => exact relabels_accepted (made _) rfl rfl

theorem Relabels.noting (relabels : outcome.Relabels change image other)
    (earlier : List Complaint) :
    (outcome.noting earlier).Relabels change image
      (other.noting (earlier.map change.complaint)) := by
  cases relabels with
  | stopped => exact relabels_stopped rfl List.map_append.symm
  | accepted => exact relabels_accepted rfl rfl List.map_append.symm

theorem Relabels.behind {token token' : Token} (relabels : outcome.Relabels change image other) :
    (outcome.behind token : Outcome α asked (token :: input)).Relabels change image
      (other.behind token' : Outcome β asked' (token' :: input')) := by
  cases relabels with
  | stopped => exact .stopped
  | accepted => exact .accepted

theorem Relabels.relax (relabels : outcome.Relabels change image other) :
    outcome.relax.Relabels change image other.relax := by
  cases relabels with
  | stopped => exact .stopped
  | accepted => exact .accepted

/-- A token in front decides whether the rule is run. -/
theorem relabels_unless {result : α} {closer : Tag}
    {rule : Outcome α false input} {rule' : Outcome β false (input.map change.token)}
    (run : rule.Relabels change image rule') :
    (if Rule.nextIs closer input then done result else rule).Relabels change image
      (if Rule.nextIs closer (input.map change.token) then done (image result) else rule') := by
  rw [Rule.nextIs_map]
  apply relabels_ite
  · intro closes
    exact relabels_done result
  · intro more
    exact run

end Outcome

namespace Recast

variable (change : Recast)

theorem leaf?_token (token : Token) :
    (change.token token).leaf? = token.leaf?.map change.expr := by
  unfold Token.leaf?
  rw [token_kind]
  split <;> rfl

theorem assigned?_expr (target value : Expr) :
    (change.expr target).assigned? (change.expr value) =
      (target.assigned? value).map change.expr := by
  cases target <;> rfl

theorem join_expr (layer : Layer) (left : Expr) (operator : Token) (right : Expr) :
    layer.join (change.expr left) (change.token operator) (change.expr right) =
      change.expr (layer.join left operator right) := by
  cases layer <;> rfl

end Recast

namespace Rule

variable (change : Recast) {layer : Layer} {token : Token} {after input : List Token}

/-- The rule does the same on tokens with other lines. -/
abbrev Relabels {α : Type} {progress : Bool} (image : α → α)
    (rule : ∀ input : List Token, Outcome α progress input) (input : List Token) : Prop :=
  (rule input).Relabels change image (rule (input.map change.token))

/-- The layer goes on behind an operand in the same way. -/
abbrev JoinedRelabels (layer : Layer) (left : Expr) (input : List Token) : Prop :=
  (joined layer left input).Relabels change change.expr
    (joined layer (change.expr left) (input.map change.token))

abbrev SuffixesRelabels (object : Expr) (input : List Token) : Prop :=
  (suffixes object input).Relabels change change.expr
    (suffixes (change.expr object) (input.map change.token))

variable {change}

theorem expression_relabels (target : Relabels change change.expr (layered .disjunction) input)
    (value : ∀ sign after, Moved true (sign :: after) input →
      Relabels change change.expr expression after) :
    Relabels change change.expr expression input := by
  unfold Relabels
  rw [expression, expression]
  apply target.andThen
  intro target rest rest' moved moved' same
  cases rest with
  | nil =>
    subst same
    exact Outcome.relabels_done target
  | cons sign after =>
    obtain rfl : rest' = change.token sign :: after.map change.token := same
    apply Outcome.relabels_ite
    · intro equals
      apply Outcome.Relabels.behind
      apply (value sign after moved).settle
      intro value
      rw [change.assigned?_expr]
      cases target.assigned? value <;> rfl
    · intro other
      exact Outcome.relabels_done target

theorem joined_relabels {left : Expr} (joins : layer.joins token = true)
    (right : Relabels change change.expr (operand layer) after)
    (others : ∀ right rest, Moved true rest after →
      JoinedRelabels change layer (layer.join left token right) rest) :
    JoinedRelabels change layer left (token :: after) := by
  have joins' : layer.joins (change.token token) = true := joins
  unfold JoinedRelabels
  rw [List.map_cons, joined_more joins, joined_more joins']
  apply Outcome.Relabels.behind
  apply right.andThen
  rintro right rest _ moved _ rfl
  rw [change.join_expr]
  exact others right rest moved

theorem suffixes_call_relabels {object : Expr} (opens : token.is .leftParen = true)
    (inner : Relabels change change.exprs (listed .rightParen true) after)
    (others : ∀ arguments rest, Moved false rest after → ∀ paren behind, Moved true behind rest →
      SuffixesRelabels change (.call object paren arguments) behind) :
    SuffixesRelabels change object (token :: after) := by
  have opens' : (change.token token).is .leftParen = true := opens
  unfold SuffixesRelabels
  rw [List.map_cons, suffixes_call opens, suffixes_call opens']
  apply Outcome.Relabels.behind
  apply inner.andThen
  rintro arguments rest _ moved _ rfl
  apply (Outcome.relabels_expect .rightParen .argumentsEnd rest).andThen
  rintro paren behind _ moved' _ rfl
  exact others arguments rest moved paren behind moved'

theorem suffixes_subscript_relabels {object : Expr} (opens : token.is .leftBracket = true)
    (inner : Relabels change change.expr expression after)
    (others : ∀ index rest, Moved true rest after → ∀ bracket behind, Moved true behind rest →
      SuffixesRelabels change (.subscript object bracket index) behind) :
    SuffixesRelabels change object (token :: after) := by
  have opens' : (change.token token).is .leftBracket = true := opens
  unfold SuffixesRelabels
  rw [List.map_cons, suffixes_subscript opens, suffixes_subscript opens']
  apply Outcome.Relabels.behind
  apply inner.andThen
  rintro index rest _ moved _ rfl
  apply (Outcome.relabels_expect .rightBracket .indexEnd rest).andThen
  rintro bracket behind _ moved' _ rfl
  exact others index rest moved bracket behind moved'

theorem separated_relabels {limited : Bool} {count : Nat}
    (first : Relabels change change.expr expression input)
    (others : ∀ comma after, Moved true (comma :: after) input →
      Relabels change change.exprs (separated limited (count + 1)) after) :
    Relabels change change.exprs (separated limited count) input := by
  have earlier : (if limited && maxArity ≤ count then
        [Complaint.mk .tooManyArguments (input.map change.token)] else []) =
      (if limited && maxArity ≤ count then
        [Complaint.mk .tooManyArguments input] else []).map change.complaint := by
    split <;> rfl
  unfold Relabels
  rw [separated, separated, earlier]
  apply (first.noting _).andThen
  intro item rest rest' moved moved' same
  cases rest with
  | nil =>
    subst same
    exact Outcome.relabels_done [item]
  | cons comma after =>
    obtain rfl : rest' = change.token comma :: after.map change.token := same
    apply Outcome.relabels_ite
    · intro between
      apply Outcome.Relabels.behind
      apply (others comma after moved).map
      intro items
      rfl
    · intro other
      exact Outcome.relabels_done [item]

theorem primary_group_relabels (opens : token.kind = .plain .leftParen)
    (inner : Relabels change change.expr expression after) :
    Relabels change change.expr primary (token :: after) := by
  have opens' : (change.token token).kind = .plain .leftParen := opens
  unfold Relabels
  rw [List.map_cons, primary_group opens, primary_group opens']
  apply Outcome.Relabels.behind
  apply inner.andThen
  rintro tree rest _ _ _ rfl
  apply (Outcome.relabels_expect .rightParen .groupEnd rest).map
  intro paren
  rfl

theorem primary_array_relabels (opens : token.kind = .plain .leftBracket)
    (inner : Relabels change change.exprs (listed .rightBracket false) after) :
    Relabels change change.expr primary (token :: after) := by
  have opens' : (change.token token).kind = .plain .leftBracket := opens
  unfold Relabels
  rw [List.map_cons, primary_array opens, primary_array opens']
  apply Outcome.Relabels.behind
  apply inner.andThen
  rintro elements rest _ _ _ rfl
  apply (Outcome.relabels_expect .rightBracket .elementsEnd rest).map
  intro bracket
  rfl

theorem leaf_relabels {tree : Expr} (leaf : token.leaf? = some tree) :
    Relabels change change.expr primary (token :: after) := by
  have leaf' : (change.token token).leaf? = some (change.expr tree) := by
    rw [change.leaf?_token, leaf, Option.map_some]
  unfold Relabels
  rw [List.map_cons, primary_leaf leaf, primary_leaf leaf']
  exact (Outcome.relabels_done tree).behind

/-- Every expression rule does the same on tokens with other lines. -/
theorem expressions_relabel (change : Recast) :
    (∀ input, Relabels change change.expr expression input) ∧
    (∀ layer input, Relabels change change.expr (layered layer) input) ∧
    (∀ layer left input, JoinedRelabels change layer left input) ∧
    (∀ layer input, Relabels change change.expr (operand layer) input) ∧
    (∀ input, Relabels change change.expr signed input) ∧
    (∀ input, Relabels change change.expr suffixed input) ∧
    (∀ object input, SuffixesRelabels change object input) ∧
    (∀ closer limited input, Relabels change change.exprs (listed closer limited) input) ∧
    (∀ limited count input, Relabels change change.exprs (separated limited count) input) ∧
    ∀ input, Relabels change change.expr primary input := by
  refine expression.mutual_induct _ _ _ _ _ _ _ _ _ _ ?expression ?layered ?joinedEnd ?joinedMore
    ?joinedOther ?operandLayer ?operandSigned ?signedEnd ?signedMore ?signedOther ?suffixed
    ?suffixesEnd ?suffixesCall ?suffixesSubscript ?suffixesOther ?listedNone ?listedSome
    ?separated ?primaryEnd ?number ?string ?falsehood ?truth ?nil ?name ?group ?array
    ?primaryOther
  case expression => exact fun input => expression_relabels
  case layered =>
    intro layer input first others
    unfold Relabels
    rw [layered, layered]
    apply first.andThen
    rintro left rest _ moved _ rfl
    exact others left rest moved
  case joinedEnd =>
    intro layer left
    unfold JoinedRelabels
    rw [List.map_nil, joined_nil, joined_nil]
    exact Outcome.relabels_done left
  case joinedMore => exact fun layer left operator after => joined_relabels
  case joinedOther =>
    intro layer left operator after other
    have other' : ¬layer.joins (change.token operator) = true := other
    unfold JoinedRelabels
    rw [List.map_cons, joined_other other, joined_other other']
    exact Outcome.relabels_accepted rfl rfl rfl
  case operandLayer =>
    intro layer input inner found ih
    unfold Relabels
    rw [operand_of_some found, operand_of_some found]
    exact ih
  case operandSigned =>
    intro layer input found ih
    unfold Relabels
    rw [operand_of_none found, operand_of_none found]
    exact ih
  case signedEnd =>
    intro ih
    unfold Relabels
    rw [List.map_nil, signed_nil]
    exact ih
  case signedMore =>
    intro operator after found ih
    have found' : ((change.token operator).is .bang || (change.token operator).is .minus) = true :=
      found
    unfold Relabels
    rw [List.map_cons, signed_more found, signed_more found']
    apply Outcome.Relabels.behind
    apply ih.map
    intro right
    rfl
  case signedOther =>
    intro operator after other ih
    have other' : ¬((change.token operator).is .bang || (change.token operator).is .minus) = true :=
      other
    unfold Relabels
    rw [List.map_cons, signed_other other, signed_other other']
    exact ih
  case suffixed =>
    intro input object others
    unfold Relabels
    rw [suffixed, suffixed]
    apply object.andThen
    rintro object rest _ moved _ rfl
    exact others object rest moved
  case suffixesEnd =>
    intro object
    unfold SuffixesRelabels
    rw [List.map_nil, suffixes_nil, suffixes_nil]
    exact Outcome.relabels_done object
  case suffixesCall => exact fun object opening after => suffixes_call_relabels
  case suffixesSubscript => exact fun object opening after _ => suffixes_subscript_relabels
  case suffixesOther =>
    intro object opening after noCall noSubscript
    have noCall' : ¬(change.token opening).is .leftParen = true := noCall
    have noSubscript' : ¬(change.token opening).is .leftBracket = true := noSubscript
    unfold SuffixesRelabels
    rw [List.map_cons, suffixes_other noCall noSubscript, suffixes_other noCall' noSubscript']
    exact Outcome.relabels_accepted rfl rfl rfl
  case listedNone =>
    intro closer limited input closes
    have closes' : nextIs closer (input.map change.token) = true := by
      rw [nextIs_map]
      exact closes
    unfold Relabels
    rw [listed, listed, if_pos closes, if_pos closes']
    exact Outcome.relabels_done []
  case listedSome =>
    intro closer limited input more ih
    unfold Relabels
    rw [listed, listed]
    exact Outcome.relabels_unless ih.relax
  case separated => exact fun limited count input => separated_relabels
  case primaryEnd =>
    unfold Relabels
    rw [List.map_nil, primary_nil]
    exact Outcome.relabels_stop .expression
  case number => exact fun token after value kind => leaf_relabels (by rw [Token.leaf?, kind])
  case string => exact fun token after text kind => leaf_relabels (by rw [Token.leaf?, kind])
  case falsehood => exact fun token after kind => leaf_relabels (by rw [Token.leaf?, kind])
  case truth => exact fun token after kind => leaf_relabels (by rw [Token.leaf?, kind])
  case nil => exact fun token after kind => leaf_relabels (by rw [Token.leaf?, kind])
  case name => exact fun token after kind => leaf_relabels (by rw [Token.leaf?, kind])
  case group => exact fun token after => primary_group_relabels
  case array => exact fun token after => primary_array_relabels
  case primaryOther =>
    intro token after noNumber noString noFalse noTrue noNil noName noGroup noArray
    have stops : primary (change.token token :: after.map change.token) = .stop .expression :=
      primary_other noNumber noString noFalse noTrue noNil noName noGroup noArray
    unfold Relabels
    rw [List.map_cons, stops,
      primary_other noNumber noString noFalse noTrue noNil noName noGroup noArray]
    exact Outcome.relabels_stopped rfl rfl

end Rule
end Script
