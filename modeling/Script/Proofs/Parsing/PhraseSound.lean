import Script.Proofs.Parsing.Derives
import Script.Proofs.Parsing.Layer
import Script.Proofs.Parsing.Rule

/-! Whatever an expression rule accepts is a phrase of the grammar with the same tree and the same
faults. -/

namespace Script

open Grammar

namespace Rule

variable {input after : List Token} {last token : Token}

/-- The tokens taken derive the tree at the level. -/
abbrev phrase (level : Level) : Outcome.Account Expr :=
  fun mode taken _ tree faults => Phrase mode level taken tree faults

/-- The tokens taken make a phrase of the level when put behind one that derives `left`. -/
abbrev growth (level : Level) (left : Expr) : Outcome.Account Expr :=
  fun mode taken _ tree faults => ∀ before earlier, Phrase mode level before left earlier →
    Phrase mode level (before ++ taken) tree (earlier ++ faults)

/-- The tokens taken make an assignment when put behind a disjunction that derives `target`. -/
abbrev assigning (target : Expr) : Outcome.Account Expr :=
  fun mode taken _ tree faults => ∀ before earlier, Phrase mode .disjunction before target earlier →
    Phrase mode .assignment (before ++ taken) tree (earlier ++ faults)

/-- The tokens taken are a list item that `count` others come before. -/
abbrev item (limited : Bool) (count : Nat) : Outcome.Account Expr :=
  fun mode taken _ tree faults => ∃ own, Phrase mode .assignment taken tree own ∧
    (mode = .strict → limited = true → count < 255) ∧ excess limited count taken ++ own = faults

/-- The tokens taken are list items, `count` of which came before. -/
abbrev items (limited : Bool) (count : Nat) : Outcome.Account (List Expr) :=
  fun mode taken _ trees faults => ∃ parts : List (Piece Expr),
    (∀ part ∈ parts, Phrase mode .assignment part.tokens part.tree part.faults) ∧
    Separated (parts.map Piece.tokens) taken ∧ parts.map Piece.tree = trees ∧
    itemFaults limited count parts = faults ∧
    (mode = .strict → limited = true → count + parts.length ≤ 255)

/-- List items, at least one of them. -/
abbrev someItems (limited : Bool) (count : Nat) : Outcome.Account (List Expr) :=
  fun mode taken rest trees faults => trees ≠ [] ∧ items limited count mode taken rest trees faults

/-- The tokens taken are the items behind a first one, `count` before it, with a comma, or none. -/
abbrev itemsBehind (limited : Bool) (count : Nat) (first : Expr) : Outcome.Account (List Expr) :=
  fun mode taken rest trees faults =>
    (taken = [] ∧ trees = [first] ∧ faults = []) ∨
    ∃ comma tokens others, taken = comma :: tokens ∧ comma.is .comma = true ∧
      trees = first :: others ∧ someItems limited (count + 1) mode tokens rest others faults

theorem derives_growth_nil {level : Level} {left : Expr} :
    (Outcome.done left : Outcome Expr false input).Derives last (growth level left) :=
  Outcome.derives_done fun mode before earlier phrase => by simpa using phrase

/-- A disjunction that is assigned to derives an assignment: to a name, to an element, or to
something else that is at fault. -/
theorem phrase_assigned {mode : Mode} {sign : Token} {targetTokens tokens : List Token}
    {target value : Expr} {targetFaults faults : List ParseError} (equals : sign.is .equal = true)
    (left : Phrase mode .disjunction targetTokens target targetFaults)
    (right : Phrase mode .assignment tokens value faults) :
    (∀ assignment, target.assigned? value = some assignment →
      Phrase mode .assignment (targetTokens ++ sign :: tokens) assignment
        (targetFaults ++ faults)) ∧
    (target.assigned? value = none → mode = .lenient →
      Phrase mode .assignment (targetTokens ++ sign :: tokens) target
        (targetFaults ++ faults ++ [⟨.invalidTarget, sign⟩])) := by
  refine ⟨?_, ?_⟩
  · intro assignment found
    unfold Expr.assigned? at found
    split at found
    · cases found
      obtain ⟨rfl, named, rfl⟩ := left.eq_name
      exact .assignName named equals right
    · cases found
      obtain ⟨_, _, _, _, _, rfl, rfl, object, opens, index, closes⟩ := left.eq_subscript
      have assigned := Phrase.assignElement object opens index closes equals right
      simpa using assigned
    · cases found
  · intro missing lenient
    refine .assignOther lenient left ?_ ?_ equals right
    · rintro name rfl
      simp [Expr.assigned?] at missing
    · rintro object bracket index rfl
      simp [Expr.assigned?] at missing

theorem expression_derives
    (target : (layered .disjunction input).Derives last (phrase .disjunction))
    (value : ∀ sign after, Moved true (sign :: after) input →
      (expression after).Derives last (phrase .assignment)) :
    (expression input).Derives last (phrase .assignment) := by
  rw [expression]
  refine (?_ : Outcome.Derives last ((phrase .disjunction).andThen assigning) _).mono ?_
  · refine target.andThen fun target rest moved => ?_
    have bare : ∀ mode before earlier, Phrase mode .disjunction before target earlier →
        Phrase mode .assignment (before ++ []) target (earlier ++ []) := by
      intro mode before earlier left
      simpa using .inside rfl left
    cases rest with
    | nil => exact Outcome.derives_done bare
    | cons sign after =>
      dsimp only
      split
      · rename_i equals
        refine ((value sign after moved).settle ?_).behind
        intro mode taken rest value faults clean right before earlier left
        obtain ⟨valid, invalid⟩ := phrase_assigned equals left right
        cases assigned : target.assigned? value with
        | some assignment => simpa [assigned] using valid assignment assigned
        | none =>
          rw [assigned] at clean
          have lenient := Mode.eq_lenient (clean _ (List.mem_singleton_self _))
          simpa [assigned, Complaint.fault] using invalid assigned lenient
      · exact Outcome.derives_done bare
  · rintro mode _ rest tree _ ⟨taken, more, target, faults, others, rfl, rfl, left, grown⟩
    exact grown taken faults left

theorem layered_derives {layer : Layer}
    (first : (operand layer input).Derives last (phrase layer.operandLevel))
    (others : ∀ left rest, Moved true rest input →
      (joined layer left rest).Derives last (growth layer.level left)) :
    (layered layer input).Derives last (phrase layer.level) := by
  rw [layered]
  refine (first.andThen others).mono ?_
  rintro mode _ rest tree _ ⟨taken, more, left, faults, others, rfl, rfl, phrase, grown⟩
  exact grown taken faults (.inside layer.inner?_level phrase)

theorem joined_derives {layer : Layer} {left : Expr} (joins : layer.joins token = true)
    (right : (operand layer after).Derives last (phrase layer.operandLevel))
    (others : ∀ right rest, Moved true rest after →
      (joined layer (layer.join left token right) rest).Derives last
        (growth layer.level (layer.join left token right))) :
    (joined layer left (token :: after)).Derives last (growth layer.level left) := by
  rw [joined_more joins]
  refine ((right.andThen others).mono ?_).behind
  rintro mode _ rest tree _ ⟨taken, more, right, faults, others, rfl, rfl, phrase, grown⟩
    before earlier left
  obtain ⟨tag, member, found⟩ := Layer.joins_iff.mp joins
  have node := Phrase.join (Layer.joins_of_mem member) left found phrase
  simpa using grown _ _ node

theorem suffixes_call_derives {object : Expr} (opens : token.is .leftParen = true)
    (inner : (listed .rightParen true after).Derives last (items true 0))
    (others : ∀ arguments rest, Moved false rest after → ∀ paren behind, Moved true behind rest →
      (suffixes (.call object paren arguments) behind).Derives last
        (growth .suffixed (.call object paren arguments))) :
    (suffixes object (token :: after)).Derives last (growth .suffixed object) := by
  rw [suffixes_call opens]
  refine ((inner.andThen fun arguments rest moved =>
    Outcome.derives_expect.andThen (others arguments rest moved)).mono ?_).behind
  rintro mode _ rest tree _ ⟨taken, _, _, _, _, rfl, rfl, ⟨parts, each, listed, rfl, rfl, few⟩,
    _, more, paren, _, faults, rfl, rfl, ⟨rfl, closes, rfl⟩, grown⟩ before earlier left
  have short : mode = .strict → parts.length ≤ 255 := by simpa using few
  simpa using grown _ _ (Phrase.call left opens each listed short closes)

theorem suffixes_subscript_derives {object : Expr} (opens : token.is .leftBracket = true)
    (inner : (expression after).Derives last (phrase .assignment))
    (others : ∀ index rest, Moved true rest after → ∀ bracket behind, Moved true behind rest →
      (suffixes (.subscript object bracket index) behind).Derives last
        (growth .suffixed (.subscript object bracket index))) :
    (suffixes object (token :: after)).Derives last (growth .suffixed object) := by
  rw [suffixes_subscript opens]
  refine ((inner.andThen fun index rest moved =>
    Outcome.derives_expect.andThen (others index rest moved)).mono ?_).behind
  rintro mode _ rest tree _ ⟨taken, _, index, own, _, rfl, rfl, place,
    _, more, bracket, _, faults, rfl, rfl, ⟨rfl, closes, rfl⟩, grown⟩ before earlier left
  simpa using grown _ _ (Phrase.subscript left opens place closes)

/-- An item of a list, with a fault at its first token if there are too many. -/
theorem item_derives {limited : Bool} {count : Nat}
    (derives : (expression input).Derives last (phrase .assignment)) :
    ((expression input).noting
      (if limited && maxArity ≤ count then [⟨.tooManyArguments, input⟩] else [])).Derives last
      (item limited count) := by
  refine derives.noting ?_
  intro mode taken rest tree own clean split derived
  obtain ⟨first, others, rfl, _⟩ := derived.starts
  subst split
  refine ⟨own, derived, ?_, ?_⟩
  · rintro rfl isLimited
    by_cases full : 255 ≤ count
    · simp [isLimited, maxArity, full, Outcome.Tolerated, Mode.tolerates] at clean
    · omega
  · unfold excess maxArity
    by_cases full : (limited && decide (255 ≤ count)) = true
    · rw [if_pos full, if_pos full]
      rfl
    · rw [if_neg full, if_neg full]
      rfl

/-- One more item in front of others. -/
theorem items_cons {limited : Bool} {count : Nat} {mode : Mode} {comma : Token}
    {taken tokens rest : List Token} {tree : Expr} {trees : List Expr}
    {own faults : List ParseError} (item : Phrase mode .assignment taken tree own)
    (between : comma.is .comma = true)
    (others : someItems limited (count + 1) mode tokens rest trees faults) :
    someItems limited count mode (taken ++ comma :: tokens) rest (tree :: trees)
      (excess limited count taken ++ own ++ faults) := by
  obtain ⟨some, parts, each, listed, rfl, rfl, few'⟩ := others
  obtain _ | ⟨next, parts⟩ := parts
  · simp at some
  refine ⟨by simp, ⟨taken, tree, own⟩ :: next :: parts, ?_, .more between listed, rfl, rfl, ?_⟩
  · exact List.forall_mem_cons.mpr ⟨item, each⟩
  · intro strict isLimited
    have := few' strict isLimited
    simp only [List.length_cons] at this ⊢
    omega

theorem separated_derives {limited : Bool} {count : Nat}
    (first : (expression input).Derives last (phrase .assignment))
    (others : ∀ comma after, Moved true (comma :: after) input →
      (separated limited (count + 1) after).Derives last (someItems limited (count + 1))) :
    (separated limited count input).Derives last (someItems limited count) := by
  rw [separated]
  refine (?_ : Outcome.Derives last
    ((item limited count).andThen (itemsBehind limited count)) _).mono ?_
  · refine (item_derives first).andThen fun tree rest moved => ?_
    cases rest with
    | nil => exact Outcome.derives_done fun mode => .inl ⟨rfl, rfl, rfl⟩
    | cons comma after =>
      dsimp only
      split
      · rename_i between
        refine ((others comma after moved).mono ?_).map.behind
        intro mode taken rest others faults listed
        exact .inr ⟨comma, taken, others, rfl, between, rfl, listed⟩
      · exact Outcome.derives_done fun mode => .inl ⟨rfl, rfl, rfl⟩
  · rintro mode _ rest trees _ ⟨taken, more, tree, _, _, rfl, rfl, ⟨own, item, few, rfl⟩,
      ⟨rfl, rfl, rfl⟩ | ⟨comma, tokens, trees', rfl, between, rfl, listed⟩⟩
    · have alone : Separated [taken] (taken ++ []) := by simpa using Separated.one taken
      exact ⟨by simp, [⟨taken, tree, own⟩], by simpa using item, alone, rfl,
        by simp [itemFaults], few⟩
    · exact items_cons item between listed

theorem primary_group_derives (opens : token.kind = .plain .leftParen)
    (inner : (expression after).Derives last (phrase .assignment)) :
    (primary (token :: after)).Derives last (phrase .primary) := by
  rw [primary_group opens]
  refine ((inner.andThen fun _ _ _ => Outcome.derives_expectLast).mono ?_).behind
  rintro mode _ rest _ _
    ⟨taken, _, tree, faults, _, rfl, rfl, group, closing, rfl, closes, rfl, rfl⟩
  simpa using Phrase.group (Token.is_iff.mpr opens) group closes

theorem primary_array_derives (opens : token.kind = .plain .leftBracket)
    (inner : (listed .rightBracket false after).Derives last (items false 0)) :
    (primary (token :: after)).Derives last (phrase .primary) := by
  rw [primary_array opens]
  refine ((inner.andThen fun _ _ _ => Outcome.derives_expectLast).mono ?_).behind
  rintro mode _ rest _ _ ⟨taken, _, _, _, _, rfl, rfl, ⟨parts, each, listed, rfl, rfl, _⟩,
    closing, rfl, closes, rfl, rfl⟩
  simpa using Phrase.array (Token.is_iff.mpr opens) each listed closes

theorem phrase_leaf {mode : Mode} {tree : Expr} (leaf : token.leaf? = some tree) :
    Phrase mode .primary [token] tree [] := by
  unfold Token.leaf? at leaf
  split at leaf
  case h_1 value kind =>
    cases leaf
    exact .number kind
  case h_2 text kind =>
    cases leaf
    exact .string kind
  case h_3 kind =>
    cases leaf
    exact .falsehood (Token.is_iff.mpr kind)
  case h_4 kind =>
    cases leaf
    exact .truth (Token.is_iff.mpr kind)
  case h_5 kind =>
    cases leaf
    exact .nil (Token.is_iff.mpr kind)
  case h_6 kind =>
    cases leaf
    exact .name (Token.is_iff.mpr kind)
  case h_7 => cases leaf

/-- A primary of one token. -/
theorem leaf_derives {tree : Expr} (leaf : token.leaf? = some tree) :
    (primary (token :: after)).Derives last (phrase .primary) := by
  rw [primary_leaf leaf]
  exact (Outcome.derives_done fun mode => phrase_leaf leaf).behind

/-- Every expression rule derives what it accepts. -/
theorem expressions_derive (last : Token) :
    (∀ input, (expression input).Derives last (phrase .assignment)) ∧
    (∀ layer input, (layered layer input).Derives last (phrase layer.level)) ∧
    (∀ layer left input, (joined layer left input).Derives last (growth layer.level left)) ∧
    (∀ layer input, (operand layer input).Derives last (phrase layer.operandLevel)) ∧
    (∀ input, (signed input).Derives last (phrase .signed)) ∧
    (∀ input, (suffixed input).Derives last (phrase .suffixed)) ∧
    (∀ object input, (suffixes object input).Derives last (growth .suffixed object)) ∧
    (∀ closer limited input, (listed closer limited input).Derives last (items limited 0)) ∧
    (∀ limited count input, (separated limited count input).Derives last
      (someItems limited count)) ∧
    ∀ input, (primary input).Derives last (phrase .primary) := by
  refine expression.mutual_induct _ _ _ _ _ _ _ _ _ _ ?expression ?layered ?joinedEnd ?joinedMore
    ?joinedOther ?operandLayer ?operandSigned ?signedEnd ?signedMore ?signedOther ?suffixed
    ?suffixesEnd ?suffixesCall ?suffixesSubscript ?suffixesOther ?listedNone ?listedSome
    ?separated ?primaryEnd ?number ?string ?falsehood ?truth ?nil ?name ?group ?array
    ?primaryOther
  case expression => exact fun input => expression_derives
  case layered => exact fun layer input => layered_derives
  case joinedEnd =>
    intro layer left
    rw [joined_nil]
    exact derives_growth_nil
  case joinedMore => exact fun layer left operator after => joined_derives
  case joinedOther =>
    intro layer left operator after other
    rw [joined_other other]
    exact derives_growth_nil
  case operandLayer =>
    intro layer input inner found ih
    rw [operand_of_some found, Layer.operandLevel_of_some found]
    exact ih
  case operandSigned =>
    intro layer input found ih
    rw [operand_of_none found, Layer.operandLevel_of_none found]
    exact ih
  case signedEnd =>
    intro ih
    rw [signed_nil]
    exact ih.mono fun mode taken rest tree faults derived => .inside rfl derived
  case signedMore =>
    intro operator after found ih
    rw [signed_more found]
    refine (ih.mono ?_).map.behind
    intro mode taken rest tree faults derived
    exact Phrase.sign (by simpa using found) derived
  case signedOther =>
    intro operator after other ih
    rw [signed_other other]
    exact ih.mono fun mode taken rest tree faults derived => .inside rfl derived
  case suffixed =>
    intro input object others
    rw [suffixed]
    refine (object.andThen others).mono ?_
    rintro mode _ rest _ _ ⟨taken, more, tree, faults, others, rfl, rfl, object, grown⟩
    exact grown taken faults (.inside rfl object)
  case suffixesEnd =>
    intro object
    rw [suffixes_nil]
    exact derives_growth_nil
  case suffixesCall => exact fun object opening after => suffixes_call_derives
  case suffixesSubscript => exact fun object opening after _ => suffixes_subscript_derives
  case suffixesOther =>
    intro object opening after noCall noSubscript
    rw [suffixes_other noCall noSubscript]
    exact derives_growth_nil
  case listedNone =>
    intro closer limited input closes
    rw [listed, if_pos closes]
    exact Outcome.derives_done fun mode => ⟨[], by simp, .none, rfl, rfl, by simp⟩
  case listedSome =>
    intro closer limited input more ih
    rw [listed, if_neg more]
    exact (ih.mono fun mode taken rest trees faults derived => derived.2).relax
  case separated => exact fun limited count input => separated_derives
  case primaryEnd =>
    rw [primary_nil]
    exact Outcome.derives_stop
  case number => exact fun token after value kind => leaf_derives (by rw [Token.leaf?, kind])
  case string => exact fun token after text kind => leaf_derives (by rw [Token.leaf?, kind])
  case falsehood => exact fun token after kind => leaf_derives (by rw [Token.leaf?, kind])
  case truth => exact fun token after kind => leaf_derives (by rw [Token.leaf?, kind])
  case nil => exact fun token after kind => leaf_derives (by rw [Token.leaf?, kind])
  case name => exact fun token after kind => leaf_derives (by rw [Token.leaf?, kind])
  case group => exact fun token after => primary_group_derives
  case array => exact fun token after => primary_array_derives
  case primaryOther =>
    intro token after noNumber noString noFalse noTrue noNil noName noGroup noArray
    rw [primary_other noNumber noString noFalse noTrue noNil noName noGroup noArray]
    exact Outcome.derives_stop

theorem expression_derives_phrase :
    (expression input).Derives last (phrase .assignment) := (expressions_derive last).1 input

end Rule
end Script
