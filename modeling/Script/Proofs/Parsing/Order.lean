import Script.Proofs.Parsing.PhrasePredicts
import Script.Proofs.Parsing.Recovery

/-! The order in which complaints are made. One that gives something up is about a token that the
ones before it were not about, further on, unless it is about the end mark. -/

namespace Script

/-- `rest` lies behind the token that the complaint is about, or there is nothing left. -/
def Passed (rest : List Token) (complaint : Complaint) : Prop :=
  rest.length < complaint.remaining.length ∨ rest = []

theorem Passed.mono {rest further : List Token} {complaint : Complaint}
    (passed : Passed rest complaint) (shorter : further.length ≤ rest.length) :
    Passed further complaint := by
  rcases passed with before | none
  · exact .inl (Nat.lt_of_le_of_lt shorter before)
  · rw [none, List.length_nil, Nat.le_zero] at shorter
    exact .inr (List.eq_nil_of_length_eq_zero shorter)

/-- A block is missed to be closed at the end mark only. -/
def Complaint.Closing (complaint : Complaint) : Prop :=
  complaint.cause = .expected .blockEnd → complaint.remaining = []

/-- Complaints made between `input` and `rest`. -/
structure Orderly (input rest : List Token) (complaints : List Complaint) : Prop where
  ordered : (complaints.filter (·.cause.unwinds)).Pairwise fun earlier later =>
    Passed later.remaining earlier
  inside : ∀ complaint ∈ complaints, complaint.cause.unwinds = true →
    complaint.remaining <:+ input ∧ Passed rest complaint
  closing : ∀ complaint ∈ complaints, complaint.Closing

namespace Orderly

variable {input middle rest : List Token} {complaints more : List Complaint}

theorem of_mild (mild : Mild complaints) : Orderly input rest complaints where
  ordered := by
    have none : complaints.filter (·.cause.unwinds) = [] :=
      List.filter_eq_nil_iff.mpr fun complaint member => by simp [mild complaint member]
    rw [none]
    exact .nil
  inside complaint member unwinds := by simp [mild complaint member] at unwinds
  closing complaint member cause := by
    have kept := mild complaint member
    rw [cause] at kept
    cases kept

theorem single {complaint : Complaint} (inside : complaint.remaining <:+ input)
    (passed : Passed rest complaint) (closing : complaint.Closing) :
    Orderly input rest [complaint] where
  ordered := (List.pairwise_singleton _ complaint).filter _
  inside other member _ := by
    obtain rfl := List.mem_singleton.mp member
    exact ⟨inside, passed⟩
  closing other member := by
    obtain rfl := List.mem_singleton.mp member
    exact closing

theorem append (first : Orderly input middle complaints) (second : Orderly middle rest more)
    (within : middle <:+ input) (left : rest <:+ middle) :
    Orderly input rest (complaints ++ more) where
  ordered := by
    rw [List.filter_append, List.pairwise_append]
    refine ⟨first.ordered, second.ordered, fun earlier inFirst later inSecond => ?_⟩
    obtain ⟨inFirst, unwinds⟩ := List.mem_filter.mp inFirst
    obtain ⟨inSecond, unwinds'⟩ := List.mem_filter.mp inSecond
    have passed := (first.inside earlier inFirst unwinds).2
    exact passed.mono (second.inside later inSecond unwinds').1.length_le
  inside complaint member unwinds := by
    rcases List.mem_append.mp member with inFirst | inSecond
    · obtain ⟨inside, passed⟩ := first.inside complaint inFirst unwinds
      exact ⟨inside, passed.mono left.length_le⟩
    · obtain ⟨inside, passed⟩ := second.inside complaint inSecond unwinds
      exact ⟨inside.trans within, passed⟩
  closing complaint member := by
    rcases List.mem_append.mp member with inFirst | inSecond
    · exact first.closing complaint inFirst
    · exact second.closing complaint inSecond

theorem mono {larger : List Token} (orderly : Orderly input rest complaints)
    (within : input <:+ larger) : Orderly larger rest complaints :=
  { orderly with
    inside := fun complaint member unwinds =>
      ⟨(orderly.inside complaint member unwinds).1.trans within,
        (orderly.inside complaint member unwinds).2⟩ }

theorem toEnd (orderly : Orderly input rest complaints) : Orderly input [] complaints :=
  { orderly with
    inside := fun complaint member unwinds =>
      ⟨(orderly.inside complaint member unwinds).1, .inr rfl⟩ }

end Orderly

namespace Outcome

variable {α β : Type} {progress further asked : Bool} {input : List Token}

/-- The complaints of a rule are in order, and what stops it comes behind the others. -/
def Orders (outcome : Outcome α progress input) : Prop :=
  outcome.Ensures (fun _ rest notes => Orderly input rest notes)
    fun complaint notes => Orderly input complaint.remaining notes ∧ complaint.Closing

variable {outcome : Outcome α progress input}

theorem orders_done {result : α} : (done result : Outcome α false input).Orders :=
  Orderly.of_mild nofun

theorem orders_stop {what : Expectation} (other : what ≠ .blockEnd) :
    (stop what : Outcome α progress input).Orders :=
  ⟨Orderly.of_mild nofun, fun cause => absurd (ParseCause.expected.inj cause) other⟩

theorem orders_expect_or {wanted : Tag} {what : Expectation}
    (closing : what = .blockEnd → input = [] ∨ Rule.nextIs wanted input = true) :
    (Rule.expect wanted what input).Orders := by
  refine ensures_expect (fun _ _ _ _ => Orderly.of_mild nofun) fun other =>
    ⟨Orderly.of_mild nofun, fun cause => ?_⟩
  rcases closing (ParseCause.expected.inj cause) with none | next
  · exact none
  · rw [other] at next
    cases next

theorem orders_expect {wanted : Tag} {what : Expectation} (other : what ≠ .blockEnd) :
    (Rule.expect wanted what input).Orders :=
  orders_expect_or fun same => absurd same other

/-- Two rules in a row, where the second may rely on what the first leaves. -/
theorem Orders.andThenLeft {post : List Token → Prop}
    {next : α → (rest : List Token) → Moved progress rest input → Outcome β further rest}
    (first : outcome.Orders) (leaves : outcome.Ensures (fun _ rest _ => post rest) fun _ _ => True)
    (goOn : ∀ result rest moved, post rest → (next result rest moved).Orders) :
    (outcome.andThen next).Orders := by
  cases outcome with
  | stopped complaint within notes => exact first
  | accepted result rest moved notes =>
    have after := goOn result rest moved leaves
    unfold Outcome.andThen
    dsimp only
    cases second : next result rest moved with
    | stopped complaint within more =>
      rw [second] at after
      exact ⟨Orderly.append first after.1 moved.1 within, after.2⟩
    | accepted found left moved' more =>
      rw [second] at after
      exact Orderly.append first after moved.1 moved'.1

theorem Orders.andThen
    {next : α → (rest : List Token) → Moved progress rest input → Outcome β further rest}
    (first : outcome.Orders) (goOn : ∀ result rest moved, (next result rest moved).Orders) :
    (outcome.andThen next).Orders :=
  first.andThenLeft (yields_of_forall fun _ => trivial) fun result rest moved (_ : True) =>
    goOn result rest moved

theorem Orders.map {change : α → β} (orders : outcome.Orders) : (outcome.map change).Orders :=
  ensures_map.mpr orders

theorem Orders.relax (orders : outcome.Orders) : outcome.relax.Orders := ensures_relax.mpr orders

theorem Orders.settle {judge : α → β × List Complaint} (orders : outcome.Orders)
    (mild : ∀ result, Mild (judge result).2) : (outcome.settle judge).Orders := by
  cases outcome with
  | stopped complaint within notes => exact orders
  | accepted result rest moved notes =>
    exact Orderly.append orders (Orderly.of_mild (mild result)) moved.1 List.suffix_rfl

theorem Orders.noting {earlier : List Complaint} (orders : outcome.Orders) (mild : Mild earlier) :
    (outcome.noting earlier).Orders := by
  have before : Orderly input input earlier := .of_mild mild
  cases outcome with
  | stopped complaint within notes =>
    exact ⟨before.append orders.1 List.suffix_rfl within, orders.2⟩
  | accepted result rest moved notes => exact before.append orders List.suffix_rfl moved.1

theorem Orders.behind {token : Token} (orders : outcome.Orders) :
    (outcome.behind token : Outcome α asked (token :: input)).Orders := by
  have within : input <:+ token :: input := List.suffix_cons token input
  refine ensures_behind.mpr (Ensures.mono orders ?_ ?_)
  · exact fun result rest notes orderly => orderly.mono within
  · exact fun complaint notes stopped => ⟨stopped.1.mono within, stopped.2⟩

/-- Nothing, unless a token comes that is taken, and then what goes on behind it. -/
theorem Orders.optional {tag : Tag} {result : α}
    {rule : (input : List Token) → Outcome α false input}
    {inner : Token → (input : List Token) → Outcome α further input}
    (none : rule [] = .done result)
    (other : ∀ token more, ¬token.is tag = true → rule (token :: more) = .done result)
    (some : ∀ token more, token.is tag = true →
      rule (token :: more) = (inner token more).behind token)
    (goOn : ∀ token after, input = token :: after → (inner token after).Orders) :
    (rule input).Orders := by
  cases input with
  | nil => exact none ▸ orders_done
  | cons token after =>
    by_cases found : token.is tag = true
    · exact some token after found ▸ (goOn token after rfl).behind
    · exact other token after found ▸ orders_done

theorem synchronize_suffix_self (input : List Token) : Rule.synchronize input <:+ input := by
  cases input with
  | nil => exact List.suffix_rfl
  | cons skipped rest => exact (Rule.resume_suffix skipped rest).trans (List.suffix_cons _ _)

/-- What is skipped lies behind the token that was blamed. -/
theorem passed_synchronize (complaint : Complaint) :
    Passed (Rule.synchronize complaint.remaining) complaint := by
  cases blamed : complaint.remaining with
  | nil => exact .inr rfl
  | cons skipped rest =>
    have shorter := (Rule.resume_suffix skipped rest).length_le
    refine .inl ?_
    rw [blamed, List.length_cons]
    exact Nat.lt_succ_of_le shorter

theorem Orders.recover {first : Token} {others : List Token}
    {outcome : Outcome α true (first :: others)} (orders : outcome.Orders) :
    outcome.recover.Orders := by
  cases outcome with
  | accepted result rest moved notes => exact orders
  | stopped complaint within notes =>
    have blamed := Orderly.single List.suffix_rfl (passed_synchronize complaint) orders.2
    exact orders.1.append blamed within (synchronize_suffix_self complaint.remaining)

end Outcome

namespace Rule

variable {input after : List Token} {token : Token}

theorem expression_orders (target : (layered .disjunction input).Orders)
    (value : ∀ sign after, Moved true (sign :: after) input → (expression after).Orders) :
    (expression input).Orders := by
  rw [expression_eq]
  refine target.andThen fun target rest moved => ?_
  refine Outcome.Orders.optional rfl (fun sign after other => if_neg other)
    (fun sign after equals => if_pos equals) ?_
  rintro sign after rfl
  exact (value sign after moved).settle (judged_mild target sign after)

theorem separated_orders {limited : Bool} {count : Nat} (first : (expression input).Orders)
    (others : ∀ comma after, Moved true (comma :: after) input →
      (separated limited (count + 1) after).Orders) :
    (separated limited count input).Orders := by
  have mild : Mild (if limited && maxArity ≤ count then [⟨.tooManyArguments, input⟩] else []) := by
    split <;> simp [Mild, ParseCause.unwinds]
  rw [separated_eq]
  refine (first.noting mild).andThen fun item rest moved => ?_
  refine Outcome.Orders.optional rfl (fun comma after other => if_neg other)
    (fun comma after between => if_pos between) ?_
  rintro comma after rfl
  exact (others comma after moved).map

/-- Every expression rule makes its complaints in order. -/
theorem expressions_order :
    (∀ input, (expression input).Orders) ∧
    (∀ layer input, (layered layer input).Orders) ∧
    (∀ layer left input, (joined layer left input).Orders) ∧
    (∀ layer input, (operand layer input).Orders) ∧
    (∀ input, (signed input).Orders) ∧
    (∀ input, (suffixed input).Orders) ∧
    (∀ object input, (suffixes object input).Orders) ∧
    (∀ closer limited input, (listed closer limited input).Orders) ∧
    (∀ limited count input, (separated limited count input).Orders) ∧
    ∀ input, (primary input).Orders := by
  have leaf {token : Token} {after : List Token} {tree : Expr} (leaf : token.leaf? = some tree) :
      (primary (token :: after)).Orders := by
    rw [primary_leaf leaf]
    exact Outcome.orders_done.behind
  refine expression.mutual_induct _ _ _ _ _ _ _ _ _ _ ?expression ?layered ?joinedEnd ?joinedMore
    ?joinedOther ?operandLayer ?operandSigned ?signedEnd ?signedMore ?signedOther ?suffixed
    ?suffixesEnd ?suffixesCall ?suffixesSubscript ?suffixesOther ?listedNone ?listedSome
    ?separated ?primaryEnd ?number ?string ?falsehood ?truth ?nil ?name ?group ?array
    ?primaryOther
  case expression => exact fun input => expression_orders
  case layered =>
    intro layer input first others
    rw [layered]
    exact first.andThen others
  case joinedEnd =>
    intro layer left
    rw [joined_nil]
    exact Outcome.orders_done
  case joinedMore =>
    intro layer left operator after joins right others
    rw [joined_more joins]
    exact (right.andThen others).behind
  case joinedOther =>
    intro layer left operator after other
    rw [joined_other other]
    exact Outcome.orders_done
  case operandLayer =>
    intro layer input inner found ih
    rwa [operand_of_some found]
  case operandSigned =>
    intro layer input found ih
    rwa [operand_of_none found]
  case signedEnd =>
    intro ih
    rwa [signed_nil]
  case signedMore =>
    intro operator after found ih
    rw [signed_more found]
    exact ih.map.behind
  case signedOther =>
    intro operator after other ih
    rwa [signed_other other]
  case suffixed =>
    intro input object others
    rw [suffixed]
    exact object.andThen others
  case suffixesEnd =>
    intro object
    rw [suffixes_nil]
    exact Outcome.orders_done
  case suffixesCall =>
    intro object opening after opens inner others
    rw [suffixes_call opens]
    exact (inner.andThen fun arguments rest moved =>
      (Outcome.orders_expect (by decide)).andThen (others arguments rest moved)).behind
  case suffixesSubscript =>
    intro object opening after _ opens inner others
    rw [suffixes_subscript opens]
    exact (inner.andThen fun index rest moved =>
      (Outcome.orders_expect (by decide)).andThen (others index rest moved)).behind
  case suffixesOther =>
    intro object opening after noCall noSubscript
    rw [suffixes_other noCall noSubscript]
    exact Outcome.orders_done
  case listedNone =>
    intro closer limited input closes
    rw [listed, if_pos closes]
    exact Outcome.orders_done
  case listedSome =>
    intro closer limited input more ih
    rw [listed, if_neg more]
    exact ih.relax
  case separated => exact fun limited count input => separated_orders
  case primaryEnd =>
    rw [primary_nil]
    exact Outcome.orders_stop (by decide)
  case number => exact fun token after value kind => leaf (by rw [Token.leaf?, kind])
  case string => exact fun token after text kind => leaf (by rw [Token.leaf?, kind])
  case falsehood => exact fun token after kind => leaf (by rw [Token.leaf?, kind])
  case truth => exact fun token after kind => leaf (by rw [Token.leaf?, kind])
  case nil => exact fun token after kind => leaf (by rw [Token.leaf?, kind])
  case name => exact fun token after kind => leaf (by rw [Token.leaf?, kind])
  case group =>
    intro token after kind inner
    rw [primary_group kind]
    exact (inner.andThen fun _ _ _ => (Outcome.orders_expect (by decide)).map).behind
  case array =>
    intro token after kind inner
    rw [primary_array kind]
    exact (inner.andThen fun _ _ _ => (Outcome.orders_expect (by decide)).map).behind
  case primaryOther =>
    intro token after noNumber noString noFalse noTrue noNil noName noGroup noArray
    rw [primary_other noNumber noString noFalse noTrue noNil noName noGroup noArray]
    exact Outcome.orders_stop (by decide)

theorem expression_orders_complaints : (expression input).Orders := expressions_order.1 input

theorem optionalBefore_orders {closer : Tag} : (optionalBefore closer input).Orders := by
  unfold optionalBefore
  split
  · exact Outcome.orders_done
  · exact expression_orders_complaints.map.relax

theorem terminated_orders {what : Expectation} (other : what ≠ .blockEnd) :
    (terminated what input).Orders :=
  expression_orders_complaints.andThen fun _ _ _ =>
    (Outcome.orders_expect other).map

theorem expressionStatement_orders : (expressionStatement input).Orders :=
  (terminated_orders (by decide)).map

theorem variableDeclaration_orders : (variableDeclaration input).Orders := by
  rw [variableDeclaration_eq]
  refine (Outcome.orders_expect (by decide)).andThen fun name rest moved => ?_
  cases rest with
  | nil => exact Outcome.orders_stop (by decide)
  | cons sign after =>
    unfold variableBehind
    dsimp only
    split
    · exact (terminated_orders (by decide)).map.behind
    · exact (Outcome.orders_expect (by decide)).map.relax

theorem returnStatement_orders {keyword : Token} : (returnStatement keyword input).Orders :=
  optionalBefore_orders.andThen fun _ _ _ => (Outcome.orders_expect (by decide)).map

theorem condition_orders {start stop : Expectation} (noStart : start ≠ .blockEnd)
    (noStop : stop ≠ .blockEnd) : (condition start stop input).Orders :=
  (Outcome.orders_expect noStart).andThen fun _ _ _ =>
    expression_orders_complaints.andThen fun _ _ _ =>
      (Outcome.orders_expect noStop).map

theorem forInitial_orders : (forInitial input).Orders := by
  unfold forInitial
  split
  · exact expressionStatement_orders.map
  · split
    · exact Outcome.orders_done.behind
    · split
      · exact variableDeclaration_orders.map.behind
      · exact expressionStatement_orders.map

theorem forHeader_orders : (forHeader input).Orders :=
  (Outcome.orders_expect (by decide)).andThen fun _ _ _ => forInitial_orders.andThen fun _ _ _ =>
    optionalBefore_orders.andThen fun _ _ _ =>
      (Outcome.orders_expect (by decide)).andThen fun _ _ _ =>
        optionalBefore_orders.andThen fun _ _ _ => (Outcome.orders_expect (by decide)).map

theorem parameterNames_orders {count : Nat} : (parameterNames count input).Orders := by
  induction count, input using parameterNames.induct with
  | case1 count input ih =>
    have mild : Mild (if maxArity ≤ count then [⟨.tooManyParameters, input⟩] else []) := by
      split <;> simp [Mild, ParseCause.unwinds]
    rw [parameterNames_eq]
    refine ((Outcome.orders_expect (by decide)).noting mild).andThen fun name rest moved => ?_
    refine Outcome.Orders.optional rfl (fun comma after other => if_neg other)
      (fun comma after between => if_pos between) ?_
    rintro comma after rfl
    exact (ih comma after moved).map

theorem functionHeader_orders : (functionHeader input).Orders := by
  refine (Outcome.orders_expect (by decide)).andThen fun _ _ _ =>
    (Outcome.orders_expect (by decide)).andThen fun _ rest _ => ?_
  refine Outcome.Orders.andThen ?_ fun _ _ _ =>
    (Outcome.orders_expect (by decide)).andThen fun _ _ _ =>
      (Outcome.orders_expect (by decide)).map
  split
  · exact Outcome.orders_done
  · exact parameterNames_orders.relax

/-- Declarations never stop. They go up to the end or, in a block, up to a closing brace. -/
theorem declarations_leave (inBlock : Bool) (input : List Token) :
    (declarations inBlock input).Ensures
      (fun _ rest _ => rest = [] ∨ inBlock = true ∧ nextIs .rightBrace rest = true)
      fun _ _ => False := by
  cases input with
  | nil =>
    rw [declarations_nil]
    exact .inl rfl
  | cons token after =>
    by_cases closes : (inBlock && token.is .rightBrace) = true
    · rw [declarations_close closes]
      exact .inr (by simpa [nextIs] using closes)
    · rw [declarations_more closes]
      refine Outcome.ensures_relax.mpr (declaration_recovers.andThen ?_ fun _ _ stopped => stopped)
      intro parsed rest moved notes (_ : True)
      exact Outcome.ensures_map.mpr (declarations_leave inBlock rest)
termination_by input.length
decreasing_by exact moved.length_lt

theorem block_orders (inner : (declarations true input).Orders) : (block input).Orders := by
  rw [block]
  have leaves := (declarations_leave true input).mono (fun _ _ _ ends => ends) fun _ _ _ => trivial
  refine inner.andThenLeft leaves fun _ rest _ ends => ?_
  exact (Outcome.orders_expect_or fun _ => ends.imp_right And.right).map

theorem statement_if_orders (found : token.is .ifKeyword = true)
    (inner : ∀ rest, Moved true rest after → (statement rest).Orders)
    (outer : ∀ rest, Moved true rest after → ∀ keyword others,
      Moved true (keyword :: others) rest → (statement others).Orders) :
    (statement (token :: after)).Orders := by
  rw [statement_if_eq found]
  refine ((condition_orders (by decide) (by decide)).andThen fun condition rest moved =>
    (inner rest moved).andThen fun consequence behind moved' => ?_).behind
  refine Outcome.Orders.optional rfl (fun keyword others other => if_neg other)
    (fun keyword others otherwise => if_pos otherwise) ?_
  rintro keyword others rfl
  exact (outer rest moved keyword others moved').map

/-- Every rule for statements and declarations makes its complaints in order. -/
theorem statements_order :
    (∀ input, (statement input).Orders) ∧
    (∀ input, (block input).Orders) ∧
    (∀ inBlock input, (declarations inBlock input).Orders) ∧
    ∀ token after, (declaration token after).Orders := by
  refine statement.mutual_induct _ _ _ _ ?statementEnd ?counting ?branch ?loop ?returning
    ?enclosing ?print ?expression ?block ?declarationsEnd ?close ?more ?unsupported ?function
    ?declaration ?statement
  case statementEnd =>
    rw [statement_nil]
    exact expressionStatement_orders
  case counting =>
    intro token after found inner
    rw [statement_for found]
    exact (forHeader_orders.andThen fun _ rest moved => (inner rest moved).map).behind
  case branch => exact fun token after _ => statement_if_orders
  case loop =>
    intro token after _ _ found inner
    rw [statement_while found]
    exact ((condition_orders (by decide) (by decide)).andThen fun _ rest moved =>
      (inner rest moved).map).behind
  case returning =>
    intro token after _ _ _ found
    rw [statement_return found]
    exact returnStatement_orders.behind
  case enclosing =>
    intro token after _ _ _ _ found inner
    rw [statement_block found]
    exact inner.map.behind
  case print =>
    intro token after _ _ _ _ _ found
    rw [statement_print found]
    exact (terminated_orders (by decide)).map.behind
  case expression =>
    intro token after noFor noIf noWhile noReturn noBlock noPrint
    rw [statement_other (by simp [statementOpeners, *])]
    exact expressionStatement_orders
  case block => exact fun input => block_orders
  case declarationsEnd =>
    intro inBlock
    rw [declarations_nil]
    exact Outcome.orders_done
  case close =>
    intro inBlock token after closes
    rw [declarations_close closes]
    exact Outcome.orders_done
  case more =>
    intro inBlock token after inside first others
    rw [declarations_more inside]
    exact (first.andThen fun _ rest moved => (others rest moved).map).relax
  case unsupported =>
    intro token after found
    have shorter := (synchronize_suffix (List.suffix_cons token after)).length_le
    rw [declaration_class found]
    refine Orderly.single List.suffix_rfl (.inl (Nat.lt_succ_of_le shorter)) fun other => ?_
    cases other
  case function =>
    intro token after _ found inner
    rw [declaration_fun found]
    exact (functionHeader_orders.andThen fun _ rest moved =>
      (inner rest moved).map).behind.recover
  case declaration =>
    intro token after _ _ found
    rw [declaration_var found]
    exact variableDeclaration_orders.behind.recover
  case statement =>
    intro token after noClass noFun noVar ih
    rw [declaration_other noClass noFun noVar]
    exact ih.recover

theorem declarations_order {inBlock : Bool} : (declarations inBlock input).Orders :=
  statements_order.2.2.1 inBlock input

end Rule

end Script
