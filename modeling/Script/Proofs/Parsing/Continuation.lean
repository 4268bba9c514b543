import Script.Proofs.Parsing.Rule

/-! How rules go on from where an inner rule leaves off, as rules of their own. -/

namespace Script

namespace Rule

variable {token : Token}

/-- What becomes of a value and the target that it is assigned to. -/
def judged (target : Expr) (sign : Token) (after : List Token) (value : Expr) :
    Expr × List Complaint :=
  match target.assigned? value with
  | some assignment => (assignment, [])
  | none => (target, [⟨.invalidTarget, sign :: after⟩])

/-- What an assignment makes of a disjunction and what stands behind it. -/
def expressionBehind (target : Expr) : (input : List Token) → Outcome Expr false input
  | [] => .done target
  | sign :: after =>
    if sign.is .equal then ((expression after).settle (judged target sign after)).behind sign
    else .done target

theorem expression_eq (input : List Token) :
    expression input =
      (layered .disjunction input).andThen fun target rest _ => expressionBehind target rest := by
  rw [expression]
  congr
  funext target rest moved
  cases rest <;> rfl

/-- What a list makes of its item number `count` and what stands behind it. -/
def separatedBehind (limited : Bool) (count : Nat) (item : Expr) :
    (input : List Token) → Outcome (List Expr) false input
  | [] => .done [item]
  | comma :: after =>
    if comma.is .comma then ((separated limited (count + 1) after).map (item :: ·)).behind comma
    else .done [item]

theorem separated_eq (limited : Bool) (count : Nat) (input : List Token) :
    separated limited count input = ((expression input).noting
      (if limited && maxArity ≤ count then [⟨.tooManyArguments, input⟩] else [])).andThen
        fun item rest _ => separatedBehind limited count item rest := by
  rw [separated]
  congr
  funext item rest moved
  cases rest <;> rfl

/-- What a variable declaration makes of its name and what stands behind it. -/
def variableBehind (name : Token) : (input : List Token) → Outcome Stmt false input
  | [] => .stop .variableEnd
  | sign :: after =>
    if sign.is .equal then
      ((terminated .variableEnd after).map fun initial => Stmt.declare name (some initial)).behind
        sign
    else ((expect .semicolon .variableEnd (sign :: after)).map fun _ =>
      Stmt.declare name none).relax

theorem variableDeclaration_eq (input : List Token) :
    variableDeclaration input =
      (expect .identifier .variableName input).andThen fun name rest _ =>
        variableBehind name rest := by
  unfold variableDeclaration
  congr
  funext name rest moved
  cases rest <;> rfl

/-- What a list of names makes of its name number `count` and what stands behind it. -/
def parameterNamesBehind (count : Nat) (name : Token) :
    (input : List Token) → Outcome (List Token) false input
  | [] => .done [name]
  | comma :: after =>
    if comma.is .comma then ((parameterNames (count + 1) after).map (name :: ·)).behind comma
    else .done [name]

theorem parameterNames_eq (count : Nat) (input : List Token) :
    parameterNames count input = ((expect .identifier .parameterName input).noting
      (if maxArity ≤ count then [⟨.tooManyParameters, input⟩] else [])).andThen
        fun name rest _ => parameterNamesBehind count name rest := by
  rw [parameterNames]
  congr
  funext name rest moved
  cases rest <;> rfl

/-- What a branch makes of its consequence and what stands behind it. -/
def alternativeBehind (condition : Expr) (consequence : Stmt) :
    (input : List Token) → Outcome Stmt false input
  | [] => .done (.branch condition consequence none)
  | keyword :: others =>
    if keyword.is .elseKeyword then
      ((statement others).map fun alternative =>
        Stmt.branch condition consequence (some alternative)).behind keyword
    else .done (.branch condition consequence none)

theorem statement_if_eq (found : token.is .ifKeyword = true) (after : List Token) :
    statement (token :: after) =
      ((condition .ifStart .ifEnd after).andThen fun condition rest _ =>
        (statement rest).andThen fun consequence rest _ =>
          alternativeBehind condition consequence rest).behind token := by
  rw [statement_if found]
  congr
  funext condition rest moved
  congr
  funext consequence rest moved
  cases rest <;> rfl

/-- The rule for declarations, as a rule for all tokens. -/
def declare : (input : List Token) → Outcome (Option Stmt) true input
  | [] => .stop .expression
  | first :: others => declaration first others

end Rule

end Script
