import Script.Proofs.Parsing.Layer
import Script.Proofs.Parsing.Parallel
import Script.Proofs.Parsing.Rule

/-! An expression ends before the next semicolon, if not sooner, and what it is does not depend on
what stands behind that semicolon. -/

namespace Script

open Grammar

theorem Layer.joins_not_semicolon {layer : Layer} {token : Token}
    (joins : layer.joins token = true) : token.is .semicolon = false := by
  obtain ⟨tag, member, found⟩ := joins_iff.mp joins
  refine Token.is_eq_false found .semicolon ?_
  rintro rfl
  revert member
  cases layer <;> decide

namespace Rule

variable {input after tail : List Token} {token : Token}

/-- What the rule makes of tokens that end in their only semicolon does not depend on what stands
behind, and it leaves at least the semicolon. -/
abbrev Confined {α : Type} {progress : Bool} (rule : ∀ input, Outcome α progress input)
    (input : List Token) : Prop :=
  Closed input → ∀ tail, (rule input).Parallel Closed tail (rule (input ++ tail))

theorem expression_confined (target : Confined (layered .disjunction) input)
    (value : ∀ sign after, Moved true (sign :: after) input → Confined expression after) :
    Confined expression input := by
  intro closed tail
  rw [expression, expression]
  refine (target closed tail).andThen ?_
  intro target rest moved moved' closed
  cases rest with
  | nil => exact absurd rfl closed.ne_nil
  | cons sign after =>
    dsimp only [List.cons_append]
    by_cases equals : sign.is .equal = true
    · rw [if_pos equals, if_pos equals]
      have rest := closed.behind equals (by decide)
      refine ((value sign after moved rest tail).settle ?_ ?_).behind
      · intro value
        cases target.assigned? value <;> rfl
      · intro value
        cases target.assigned? value with
        | some assignment => exact .nil
        | none => exact sameFaults_single closed.ne_nil tail
    · rw [if_neg equals, if_neg equals]
      exact Outcome.parallel_done closed

theorem joined_confined {layer : Layer} {left : Expr} (joins : layer.joins token = true)
    (right : Confined (operand layer) after)
    (others : ∀ right rest, Moved true rest after →
      Confined (joined layer (layer.join left token right)) rest) :
    Confined (joined layer left) (token :: after) := by
  intro closed tail
  have rest := closed.tail (Layer.joins_not_semicolon joins)
  rw [List.cons_append, joined_more joins, joined_more joins]
  refine ((right rest tail).andThen ?_).behind
  exact fun right rest moved moved' closed => others right rest moved closed tail

theorem suffixes_call_confined {object : Expr} (opens : token.is .leftParen = true)
    (inner : Confined (listed .rightParen true) after)
    (others : ∀ arguments rest, Moved false rest after → ∀ paren behind, Moved true behind rest →
      Confined (suffixes (.call object paren arguments)) behind) :
    Confined (suffixes object) (token :: after) := by
  intro closed tail
  have rest := closed.behind opens (by decide)
  rw [List.cons_append, suffixes_call opens, suffixes_call opens]
  refine ((inner rest tail).andThen ?_).behind
  intro arguments rest moved _ closed
  refine (Outcome.parallel_expect_other closed (by decide)).andThen ?_
  intro paren behind moved' _ closed
  exact others arguments rest moved paren behind moved' closed tail

theorem suffixes_subscript_confined {object : Expr} (opens : token.is .leftBracket = true)
    (inner : Confined expression after)
    (others : ∀ index rest, Moved true rest after → ∀ bracket behind, Moved true behind rest →
      Confined (suffixes (.subscript object bracket index)) behind) :
    Confined (suffixes object) (token :: after) := by
  intro closed tail
  have rest := closed.behind opens (by decide)
  rw [List.cons_append, suffixes_subscript opens, suffixes_subscript opens]
  refine ((inner rest tail).andThen ?_).behind
  intro index rest moved _ closed
  refine (Outcome.parallel_expect_other closed (by decide)).andThen ?_
  intro bracket behind moved' _ closed
  exact others index rest moved bracket behind moved' closed tail

theorem listed_confined {closer : Tag} {limited : Bool}
    (items : ¬nextIs closer input = true → Confined (separated limited 0) input) :
    Confined (listed closer limited) input := by
  intro closed tail
  rw [listed, listed]
  refine Outcome.parallel_unless (fun input => (separated limited 0 input).relax) closed ?_
  exact fun more => (items more closed tail).relax

theorem separated_confined {limited : Bool} {count : Nat} (first : Confined expression input)
    (others : ∀ comma after, Moved true (comma :: after) input →
      Confined (separated limited (count + 1)) after) :
    Confined (separated limited count) input := by
  intro closed tail
  have earlier : SameFaults
      (if limited && maxArity ≤ count then [⟨.tooManyArguments, input⟩] else [])
      (if limited && maxArity ≤ count then [⟨.tooManyArguments, input ++ tail⟩] else []) := by
    split
    · exact sameFaults_single closed.ne_nil tail
    · exact .nil
  rw [separated, separated]
  refine ((first closed tail).noting earlier).andThen ?_
  intro item rest moved moved' closed
  cases rest with
  | nil => exact absurd rfl closed.ne_nil
  | cons comma after =>
    dsimp only [List.cons_append]
    by_cases between : comma.is .comma = true
    · rw [if_pos between, if_pos between]
      have rest := closed.behind between (by decide)
      exact (others comma after moved rest tail).map.behind
    · rw [if_neg between, if_neg between]
      exact Outcome.parallel_done closed

theorem primary_group_confined (opens : token.kind = .plain .leftParen)
    (inner : Confined expression after) : Confined primary (token :: after) := by
  intro closed tail
  have rest := closed.behind (Token.is_iff.mpr opens) (by decide)
  rw [List.cons_append, primary_group opens, primary_group opens]
  refine ((inner rest tail).andThen ?_).behind
  exact fun tree rest _ _ closed => (Outcome.parallel_expect_other closed (by decide)).map

theorem primary_array_confined (opens : token.kind = .plain .leftBracket)
    (inner : Confined (listed .rightBracket false) after) : Confined primary (token :: after) := by
  intro closed tail
  have rest := closed.behind (Token.is_iff.mpr opens) (by decide)
  rw [List.cons_append, primary_array opens, primary_array opens]
  refine ((inner rest tail).andThen ?_).behind
  exact fun elements rest _ _ closed => (Outcome.parallel_expect_other closed (by decide)).map

/-- A primary of one token, which is no semicolon. -/
theorem leaf_confined {tree : Expr} (leaf : token.leaf? = some tree) :
    Confined primary (token :: after) := by
  intro closed tail
  have other : token.is .semicolon = false := Bool.eq_false_iff.mpr fun closes => by
    cases leaf.symm.trans (Token.leaf?_eq_none closes)
  rw [List.cons_append, primary_leaf leaf, primary_leaf leaf]
  exact (Outcome.parallel_done (closed.tail other)).behind

/-- Every expression rule is confined. -/
theorem expressions_confined :
    (∀ input, Confined expression input) ∧
    (∀ layer input, Confined (layered layer) input) ∧
    (∀ layer left input, Confined (joined layer left) input) ∧
    (∀ layer input, Confined (operand layer) input) ∧
    (∀ input, Confined signed input) ∧
    (∀ input, Confined suffixed input) ∧
    (∀ object input, Confined (suffixes object) input) ∧
    (∀ closer limited input, Confined (listed closer limited) input) ∧
    (∀ limited count input, Confined (separated limited count) input) ∧
    ∀ input, Confined primary input := by
  refine expression.mutual_induct _ _ _ _ _ _ _ _ _ _ ?expression ?layered ?joinedEnd ?joinedMore
    ?joinedOther ?operandLayer ?operandSigned ?signedEnd ?signedMore ?signedOther ?suffixed
    ?suffixesEnd ?suffixesCall ?suffixesSubscript ?suffixesOther ?listedNone ?listedSome
    ?separated ?primaryEnd ?number ?string ?falsehood ?truth ?nil ?name ?group ?array
    ?primaryOther
  case expression => exact fun input => expression_confined
  case layered =>
    intro layer input first others closed tail
    rw [layered, layered]
    refine (first closed tail).andThen ?_
    exact fun left rest moved _ closed => others left rest moved closed tail
  case joinedEnd => exact fun layer left closed => absurd rfl closed.ne_nil
  case joinedMore => exact fun layer left operator after => joined_confined
  case joinedOther =>
    intro layer left operator after other closed tail
    rw [List.cons_append, joined_other other, joined_other other]
    exact Outcome.parallel_done closed
  case operandLayer =>
    intro layer input inner found ih closed tail
    rw [operand_of_some found, operand_of_some found]
    exact ih closed tail
  case operandSigned =>
    intro layer input found ih closed tail
    rw [operand_of_none found, operand_of_none found]
    exact ih closed tail
  case signedEnd => exact fun ih closed => absurd rfl closed.ne_nil
  case signedMore =>
    intro operator after found ih closed tail
    have noSemicolon : operator.is .semicolon = false := by
      rcases Bool.or_eq_true_iff.mp found with bang | minus
      · exact Token.is_eq_false bang .semicolon (by decide)
      · exact Token.is_eq_false minus .semicolon (by decide)
    rw [List.cons_append, signed_more found, signed_more found]
    exact (ih (closed.tail noSemicolon) tail).map.behind
  case signedOther =>
    intro operator after other ih closed tail
    rw [List.cons_append, signed_other other, signed_other other]
    exact ih closed tail
  case suffixed =>
    intro input object others closed tail
    rw [suffixed, suffixed]
    refine (object closed tail).andThen ?_
    exact fun object rest moved _ closed => others object rest moved closed tail
  case suffixesEnd => exact fun object closed => absurd rfl closed.ne_nil
  case suffixesCall => exact fun object opening after => suffixes_call_confined
  case suffixesSubscript => exact fun object opening after _ => suffixes_subscript_confined
  case suffixesOther =>
    intro object opening after noCall noSubscript closed tail
    rw [List.cons_append, suffixes_other noCall noSubscript, suffixes_other noCall noSubscript]
    exact Outcome.parallel_done closed
  case listedNone =>
    intro closer limited input closes
    exact listed_confined fun more => absurd closes more
  case listedSome =>
    intro closer limited input more ih
    exact listed_confined fun _ => ih
  case separated => exact fun limited count input => separated_confined
  case primaryEnd => exact fun closed => absurd rfl closed.ne_nil
  case number => exact fun token after value kind => leaf_confined (by rw [Token.leaf?, kind])
  case string => exact fun token after text kind => leaf_confined (by rw [Token.leaf?, kind])
  case falsehood => exact fun token after kind => leaf_confined (by rw [Token.leaf?, kind])
  case truth => exact fun token after kind => leaf_confined (by rw [Token.leaf?, kind])
  case nil => exact fun token after kind => leaf_confined (by rw [Token.leaf?, kind])
  case name => exact fun token after kind => leaf_confined (by rw [Token.leaf?, kind])
  case group => exact fun token after => primary_group_confined
  case array => exact fun token after => primary_array_confined
  case primaryOther =>
    intro token after noNumber noString noFalse noTrue noNil noName noGroup noArray closed tail
    rw [List.cons_append,
      primary_other noNumber noString noFalse noTrue noNil noName noGroup noArray,
      primary_other noNumber noString noFalse noTrue noNil noName noGroup noArray]
    exact Outcome.parallel_stop closed

theorem expression_parallel (closed : Closed input) :
    (expression input).Parallel Closed tail (expression (input ++ tail)) :=
  expressions_confined.1 input closed tail

end Rule
end Script
