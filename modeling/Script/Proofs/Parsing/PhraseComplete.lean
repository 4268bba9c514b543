import Script.Proofs.Parsing.Layer
import Script.Proofs.Parsing.Rule

/-! Every phrase of the grammar is accepted by the rule of its level, with the same tree and the
same faults, up to a token that does not go on with it. -/

namespace Script

open Grammar

namespace Grammar

/-- The categories that go on with a phrase, the loosest first. -/
def phraseFollowers : List Tag :=
  [.equal, .orKeyword, .andKeyword, .bangEqual, .equalEqual, .greater, .greaterEqual, .less,
    .lessEqual, .minus, .plus, .star, .slash, .leftParen, .leftBracket]

/-- The categories that go on with a phrase of the level. -/
def Level.followers : Level → List Tag
  | .assignment => phraseFollowers
  | .disjunction => phraseFollowers.drop 1
  | .conjunction => phraseFollowers.drop 2
  | .equality => phraseFollowers.drop 3
  | .comparison => phraseFollowers.drop 5
  | .sum => phraseFollowers.drop 9
  | .product => phraseFollowers.drop 11
  | .signed | .suffixed => phraseFollowers.drop 13
  | .primary => []

/-- A phrase of the level does not go on with these tokens. -/
def Level.EndsAt (level : Level) (rest : List Token) : Prop :=
  ∀ token ∈ rest.head?, ∀ tag ∈ level.followers, token.is tag = false

variable {level inner : Level} {rest : List Token} {token : Token} {tag : Tag}

theorem Level.followers_inner (next : level.inner? = some inner) :
    inner.followers ⊆ level.followers := by
  cases level <;> cases next <;> decide

theorem Level.EndsAt.inside (ends : level.EndsAt rest) (next : level.inner? = some inner) :
    inner.EndsAt rest :=
  fun token head tag member => ends token head tag (followers_inner next member)

theorem Level.endsAt_nil : level.EndsAt [] := by simp [EndsAt]

theorem Level.endsAt_of_is (found : token.is tag = true) (absent : tag ∉ level.followers) :
    level.EndsAt (token :: rest) := by
  rintro _ ⟨⟩ other member
  exact Token.is_eq_false found other fun same => absurd (same ▸ member) absent

theorem Level.EndsAt.is_eq_false (ends : level.EndsAt (token :: rest))
    (member : tag ∈ level.followers) : token.is tag = false := ends token rfl tag member

end Grammar

namespace Layer

variable {layer : Layer} {tag : Tag} {token : Token} {rest : List Token}

theorem operators_subset_followers (layer : Layer) : layer.operators ⊆ layer.level.followers := by
  cases layer <;> decide

theorem operators_disjoint_followers (layer : Layer) :
    ∀ tag ∈ layer.operators, tag ∉ layer.operandLevel.followers := by
  cases layer <;> decide

theorem joins_eq_false_of_endsAt (ends : layer.level.EndsAt (token :: rest)) :
    layer.joins token = false := by
  refine Bool.eq_false_iff.mpr fun joins => ?_
  obtain ⟨tag, member, found⟩ := joins_iff.mp joins
  rw [ends.is_eq_false (operators_subset_followers layer member)] at found
  cases found

/-- An operator of the layer ends its operands. -/
theorem endsAt_of_mem (member : tag ∈ layer.operators) (found : token.is tag = true) :
    layer.operandLevel.EndsAt (token :: rest) :=
  Level.endsAt_of_is found (operators_disjoint_followers layer tag member)

end Layer

theorem Grammar.Joins.layer {level inner : Level} {tag : Tag} {node : Expr → Token → Expr → Expr}
    (joins : Joins level tag inner node) :
    ∃ layer : Layer, level = layer.level ∧ tag ∈ layer.operators ∧ inner = layer.operandLevel ∧
      node = layer.join := by
  cases joins with
  | or => exact ⟨.disjunction, rfl, by decide, rfl, rfl⟩
  | and => exact ⟨.conjunction, rfl, by decide, rfl, rfl⟩
  | different => exact ⟨.equality, rfl, by decide, rfl, rfl⟩
  | same => exact ⟨.equality, rfl, by decide, rfl, rfl⟩
  | greater => exact ⟨.comparison, rfl, by decide, rfl, rfl⟩
  | greaterEqual => exact ⟨.comparison, rfl, by decide, rfl, rfl⟩
  | less => exact ⟨.comparison, rfl, by decide, rfl, rfl⟩
  | lessEqual => exact ⟨.comparison, rfl, by decide, rfl, rfl⟩
  | minus => exact ⟨.sum, rfl, by decide, rfl, rfl⟩
  | plus => exact ⟨.sum, rfl, by decide, rfl, rfl⟩
  | times => exact ⟨.product, rfl, by decide, rfl, rfl⟩
  | divided => exact ⟨.product, rfl, by decide, rfl, rfl⟩

namespace Rule

variable {last : Token} {tokens rest : List Token} {tree : Expr} {faults : List ParseError}

/-- The operands of a layer are accepted in front of whatever the layer makes of the rest. -/
def LayerCompletes (last : Token) (layer : Layer) (tokens : List Token) (tree : Expr)
    (faults : List ParseError) : Prop :=
  ∀ rest result left more, layer.operandLevel.EndsAt rest →
    (joined layer tree rest).Accepts last result left more →
    (layered layer (tokens ++ rest)).Accepts last result left (faults ++ more)

/-- The rule of the level accepts the tokens with the tree and the faults, whatever stands behind
them. Where operators group to the left, it goes on from there. -/
def Completes (last : Token) : Level → List Token → Expr → List ParseError → Prop
  | .assignment, tokens, tree, faults => ∀ rest, Level.assignment.EndsAt rest →
      (expression (tokens ++ rest)).Accepts last tree rest faults
  | .disjunction, tokens, tree, faults => LayerCompletes last .disjunction tokens tree faults
  | .conjunction, tokens, tree, faults => LayerCompletes last .conjunction tokens tree faults
  | .equality, tokens, tree, faults => LayerCompletes last .equality tokens tree faults
  | .comparison, tokens, tree, faults => LayerCompletes last .comparison tokens tree faults
  | .sum, tokens, tree, faults => LayerCompletes last .sum tokens tree faults
  | .product, tokens, tree, faults => LayerCompletes last .product tokens tree faults
  | .signed, tokens, tree, faults => ∀ rest, Level.signed.EndsAt rest →
      (signed (tokens ++ rest)).Accepts last tree rest faults
  | .suffixed, tokens, tree, faults => ∀ rest result left more,
      (suffixes tree rest).Accepts last result left more →
      (suffixed (tokens ++ rest)).Accepts last result left (faults ++ more)
  | .primary, tokens, tree, faults => ∀ rest,
      (primary (tokens ++ rest)).Accepts last tree rest faults

theorem completes_level {layer : Layer} :
    Completes last layer.level tokens tree faults ↔
      LayerCompletes last layer tokens tree faults := by
  cases layer <;> rfl

theorem joined_accepts {layer : Layer} (ends : layer.level.EndsAt rest) :
    (joined layer tree rest).Accepts last tree rest [] := by
  cases rest with
  | nil =>
    rw [joined_nil]
    exact Outcome.accepts_done
  | cons token after =>
    rw [joined_other (by simpa using Layer.joins_eq_false_of_endsAt ends)]
    exact Outcome.accepts_done

theorem LayerCompletes.layered {layer : Layer}
    (completes : LayerCompletes last layer tokens tree faults)
    (ends : layer.level.EndsAt rest) :
    (layered layer (tokens ++ rest)).Accepts last tree rest faults := by
  simpa using completes rest tree rest [] (ends.inside layer.inner?_level) (joined_accepts ends)

theorem operand_accepts {layer : Layer}
    (completes : Completes last layer.operandLevel tokens tree faults)
    (ends : layer.operandLevel.EndsAt rest) :
    (operand layer (tokens ++ rest)).Accepts last tree rest faults := by
  cases found : layer.tighter? with
  | some inner =>
    rw [Layer.operandLevel_of_some found] at completes ends
    rw [operand_of_some found]
    exact (completes_level.mp completes).layered ends
  | none =>
    rw [Layer.operandLevel_of_none found] at completes ends
    rw [operand_of_none found]
    exact completes rest ends

theorem layerCompletes_of_operand {layer : Layer}
    (completes : Completes last layer.operandLevel tokens tree faults) :
    LayerCompletes last layer tokens tree faults := by
  intro rest result left more ends goesOn
  rw [layered]
  exact (operand_accepts completes ends).andThen fun _ => goesOn

theorem suffixes_accepts (ends : Level.suffixed.EndsAt rest) :
    (suffixes tree rest).Accepts last tree rest [] := by
  cases rest with
  | nil =>
    rw [suffixes_nil]
    exact Outcome.accepts_done
  | cons token after =>
    have noCall : token.is .leftParen = false := ends.is_eq_false (by decide)
    have noSubscript : token.is .leftBracket = false := ends.is_eq_false (by decide)
    rw [suffixes_other (by simp [noCall]) (by simp [noSubscript])]
    exact Outcome.accepts_done

/-- An expression that is not assigned to. -/
theorem expression_accepts (completes : LayerCompletes last .disjunction tokens tree faults)
    (ends : Level.assignment.EndsAt rest) :
    (expression (tokens ++ rest)).Accepts last tree rest faults := by
  rw [expression]
  refine List.append_nil faults ▸ (completes.layered (ends.inside rfl)).andThen fun moved => ?_
  cases rest with
  | nil => exact Outcome.accepts_done
  | cons sign after =>
    have noEquals : sign.is .equal = false := ends.is_eq_false (by decide)
    simp only [noEquals, Bool.false_eq_true, ↓reduceIte]
    exact Outcome.accepts_done

/-- A disjunction, an equals sign and a value. -/
theorem expression_accepts_assigned {sign : Token} {more : List Token} {value result : Expr}
    {others noted : List ParseError}
    (completes : LayerCompletes last .disjunction tokens tree faults)
    (equals : sign.is .equal = true)
    (right : (expression more).Accepts last value rest others)
    (assigned : tree.assigned? value = some result ∧ noted = [] ∨
      tree.assigned? value = none ∧ result = tree ∧ noted = [⟨.invalidTarget, sign⟩]) :
    (expression (tokens ++ sign :: more)).Accepts last result rest
      (faults ++ (others ++ noted)) := by
  have ends : Level.disjunction.EndsAt (sign :: more) := Level.endsAt_of_is equals (by decide)
  rw [expression]
  refine (completes.layered ends).andThen fun moved => ?_
  simp only [equals, ↓reduceIte]
  refine Outcome.Accepts.behind ?_
  rcases assigned with ⟨found, rfl⟩ | ⟨missing, rfl, rfl⟩
  · exact right.settle (by simp only [found]) (by simp [found])
  · exact right.settle (by simp only [missing]) (by simp [missing, Complaint.fault])

/-- An item of a list, with a fault at its first token if there are too many. -/
theorem item_accepts {mode : Mode} {limited : Bool} {count : Nat}
    (item : Phrase mode .assignment tokens tree faults)
    (completes : Completes last .assignment tokens tree faults)
    (ends : Level.assignment.EndsAt rest) :
    ((expression (tokens ++ rest)).noting
      (if limited && maxArity ≤ count then [⟨.tooManyArguments, tokens ++ rest⟩] else [])).Accepts
      last tree rest (excess limited count tokens ++ faults) := by
  refine (completes rest ends).noting ?_
  obtain ⟨first, others, rfl, _⟩ := item.starts
  unfold excess maxArity
  by_cases full : (limited && decide (255 ≤ count)) = true
  · simp [full, Complaint.fault]
  · simp [full]

theorem separated_accepts {mode : Mode} {limited : Bool} {count : Nat} {parts : List (Piece Expr)}
    {closing : Token} (some : parts ≠ [])
    (each : ∀ part ∈ parts, Phrase mode .assignment part.tokens part.tree part.faults)
    (completes : ∀ part ∈ parts,
      Completes last .assignment part.tokens part.tree part.faults)
    (listed : Separated (parts.map Piece.tokens) tokens) (noComma : closing.is .comma = false)
    (ends : Level.assignment.EndsAt (closing :: rest)) :
    (separated limited count (tokens ++ closing :: rest)).Accepts last (parts.map Piece.tree)
      (closing :: rest) (itemFaults limited count parts) := by
  induction parts generalizing count tokens with
  | nil => exact absurd rfl some
  | cons part parts ih =>
    have item := each part (by simp)
    have completesItem := completes part (by simp)
    rw [separated]
    cases parts with
    | nil =>
      cases listed
      refine (item_accepts item completesItem ends).andThen fun moved => ?_
      simp only [noComma, Bool.false_eq_true, ↓reduceIte]
      exact Outcome.accepts_done
    | cons next parts =>
      cases listed with
      | @more _ _ _ comma tokens between listed =>
        obtain ⟨_, others⟩ := List.forall_mem_cons.mp each
        obtain ⟨_, completesOthers⟩ := List.forall_mem_cons.mp completes
        have goesOn := @ih tokens (count + 1) (by simp) others completesOthers listed
        have stops : Level.assignment.EndsAt (comma :: (tokens ++ closing :: rest)) :=
          Level.endsAt_of_is between (by decide)
        rw [List.append_assoc, List.cons_append]
        refine (item_accepts item completesItem stops).andThen fun moved => ?_
        simp only [between, ↓reduceIte]
        exact goesOn.map.behind

/-- A list in front of its closing token. -/
theorem listed_accepts {mode : Mode} {limited : Bool} {closer : Tag} {parts : List (Piece Expr)}
    {closing : Token} (neither : closer ∉ Tag.comma :: phraseStarts ++ phraseFollowers)
    (each : ∀ part ∈ parts, Phrase mode .assignment part.tokens part.tree part.faults)
    (completes : ∀ part ∈ parts,
      Completes last .assignment part.tokens part.tree part.faults)
    (separated : Separated (parts.map Piece.tokens) tokens) (closes : closing.is closer = true) :
    (listed closer limited (tokens ++ closing :: rest)).Accepts last (parts.map Piece.tree)
      (closing :: rest) (itemFaults limited 0 parts) := by
  simp only [List.cons_append, List.mem_cons, List.mem_append, not_or] at neither
  obtain ⟨noComma, noStart, noFollower⟩ := neither
  rw [listed]
  cases parts with
  | nil =>
    cases separated
    simp only [List.nil_append, nextIs, closes, ↓reduceIte]
    exact Outcome.accepts_done
  | cons part parts =>
    obtain ⟨first, others, starts, among⟩ := (each part (by simp)).starts
    obtain ⟨behind, rfl⟩ := separated.starts
    have more : nextIs closer (part.tokens ++ behind ++ closing :: rest) = false := by
      rw [starts]
      exact among.is_eq_false noStart
    rw [more]
    refine (separated_accepts (by simp) each completes separated ?_ ?_).relax
    · exact Token.is_eq_false closes .comma noComma
    · exact Level.endsAt_of_is closes noFollower

/-- A phrase of the next level inward is a phrase of the level. -/
theorem completes_inside {mode : Mode} {level inner : Level} (next : level.inner? = some inner)
    (phrase : Phrase mode inner tokens tree faults)
    (completes : Completes last inner tokens tree faults) :
    Completes last level tokens tree faults := by
  cases level with
  | assignment =>
    cases next
    exact fun rest ends => expression_accepts completes ends
  | disjunction | conjunction | equality | comparison | sum | product =>
    cases next
    exact layerCompletes_of_operand completes
  | signed =>
    cases next
    intro rest ends
    obtain ⟨first, others, rfl, starts⟩ := phrase.starts_suffixed
    have noBang : first.is .bang = false := starts.is_eq_false (by decide)
    have noMinus : first.is .minus = false := starts.is_eq_false (by decide)
    rw [List.cons_append, signed_other (by simp [noBang, noMinus])]
    simpa using completes rest tree rest [] (suffixes_accepts ends)
  | suffixed =>
    cases next
    intro rest result left more goesOn
    rw [suffixed]
    exact (completes rest).andThen fun _ => goesOn
  | primary => cases next

/-- A suffixed phrase is a phrase of each level up to that of disjunctions. -/
theorem completes_disjunction {mode : Mode} (phrase : Phrase mode .suffixed tokens tree faults)
    (completes : Completes last .suffixed tokens tree faults) :
    Completes last .disjunction tokens tree faults := by
  have signed : Completes last .signed tokens tree faults := completes_inside rfl phrase completes
  exact layerCompletes_of_operand (layerCompletes_of_operand (layerCompletes_of_operand
    (layerCompletes_of_operand (layerCompletes_of_operand (layerCompletes_of_operand signed)))))

theorem completes_subscript {opening closing : Token} {indexTokens : List Token} {index : Expr}
    {indexFaults : List ParseError} (object : Completes last .suffixed tokens tree faults)
    (opens : opening.is .leftBracket = true)
    (place : Completes last .assignment indexTokens index indexFaults)
    (closes : closing.is .rightBracket = true) :
    Completes last .suffixed (tokens ++ opening :: indexTokens ++ [closing])
      (.subscript tree closing index) (faults ++ indexFaults) := by
  intro rest result left more goesOn
  have ends : Level.assignment.EndsAt (closing :: rest) := Level.endsAt_of_is closes (by decide)
  have suffix : (suffixes tree (opening :: (indexTokens ++ closing :: rest))).Accepts last result
      left (indexFaults ++ ([] ++ more)) := by
    rw [suffixes_subscript opens]
    exact ((place _ ends).andThen fun _ => (Outcome.accepts_expect closes).andThen
      fun _ => goesOn).behind
  rw [List.append_assoc, List.append_assoc, List.append_assoc]
  exact object _ _ _ _ suffix

theorem completes_call {mode : Mode} {opening closing : Token} {listTokens : List Token}
    {arguments : List (Piece Expr)} (callee : Completes last .suffixed tokens tree faults)
    (opens : opening.is .leftParen = true)
    (each : ∀ argument ∈ arguments,
      Phrase mode .assignment argument.tokens argument.tree argument.faults)
    (completes : ∀ argument ∈ arguments,
      Completes last .assignment argument.tokens argument.tree argument.faults)
    (separated : Separated (arguments.map Piece.tokens) listTokens)
    (closes : closing.is .rightParen = true) :
    Completes last .suffixed (tokens ++ opening :: listTokens ++ [closing])
      (.call tree closing (arguments.map Piece.tree)) (faults ++ itemFaults true 0 arguments) := by
  intro rest result left more goesOn
  have suffix : (suffixes tree (opening :: (listTokens ++ closing :: rest))).Accepts last result
      left (itemFaults true 0 arguments ++ ([] ++ more)) := by
    rw [suffixes_call opens]
    exact ((listed_accepts (by decide) each completes separated closes).andThen fun _ =>
      (Outcome.accepts_expect closes).andThen fun _ => goesOn).behind
  rw [List.append_assoc, List.append_assoc, List.append_assoc]
  exact callee _ _ _ _ suffix

theorem completes_join {level inner : Level} {tag : Tag} {node : Expr → Token → Expr → Expr}
    {operator : Token} {rightTokens : List Token} {right : Expr} {rightFaults : List ParseError}
    (joins : Joins level tag inner node) (before : Completes last level tokens tree faults)
    (found : operator.is tag = true)
    (after : Completes last inner rightTokens right rightFaults) :
    Completes last level (tokens ++ operator :: rightTokens) (node tree operator right)
      (faults ++ rightFaults) := by
  obtain ⟨layer, rfl, member, rfl, rfl⟩ := joins.layer
  rw [completes_level] at before ⊢
  intro rest result left more ends goesOn
  have grown : (joined layer tree (operator :: (rightTokens ++ rest))).Accepts last result left
      (rightFaults ++ more) := by
    rw [joined_more (Layer.joins_iff.mpr ⟨tag, member, found⟩)]
    exact ((operand_accepts after ends).andThen fun _ => goesOn).behind
  rw [List.append_assoc, List.append_assoc]
  exact before _ _ _ _ (Layer.endsAt_of_mem member found) grown

/-- A primary of one token. -/
theorem completes_leaf {token : Token} (leaf : token.leaf? = some tree) :
    Completes last .primary [token] tree [] := by
  intro rest
  rw [List.singleton_append, primary_leaf leaf]
  exact Outcome.accepts_done.behind

theorem completes_assigned {sign : Token} {valueTokens : List Token} {value result : Expr}
    {others noted : List ParseError} (target : Completes last .disjunction tokens tree faults)
    (equals : sign.is .equal = true) (right : Completes last .assignment valueTokens value others)
    (assigned : tree.assigned? value = some result ∧ noted = [] ∨
      tree.assigned? value = none ∧ result = tree ∧ noted = [⟨.invalidTarget, sign⟩]) :
    Completes last .assignment (tokens ++ sign :: valueTokens) result
      (faults ++ (others ++ noted)) := by
  intro rest ends
  rw [List.append_assoc]
  exact expression_accepts_assigned target equals (right rest ends) assigned

theorem assigned?_eq_none {target value : Expr} (noName : ∀ name, target ≠ .reference name)
    (noElement : ∀ object bracket index, target ≠ .subscript object bracket index) :
    target.assigned? value = none := by
  cases target with
  | reference name => exact absurd rfl (noName name)
  | subscript object bracket index => exact absurd rfl (noElement object bracket index)
  | _ => rfl

theorem completes_group {opening closing : Token} (opens : opening.is .leftParen = true)
    (inner : Completes last .assignment tokens tree faults)
    (closes : closing.is .rightParen = true) :
    Completes last .primary (opening :: tokens ++ [closing]) (.grouping tree) faults := by
  intro rest
  have ends : Level.assignment.EndsAt (closing :: rest) := Level.endsAt_of_is closes (by decide)
  rw [List.append_assoc, List.cons_append, primary_group (Token.is_iff.mp opens)]
  refine List.append_nil faults ▸ ((inner _ ends).andThen fun _ => ?_).behind
  exact (Outcome.accepts_expect closes).map

theorem completes_array {mode : Mode} {opening closing : Token} {elements : List (Piece Expr)}
    (opens : opening.is .leftBracket = true)
    (each : ∀ element ∈ elements,
      Phrase mode .assignment element.tokens element.tree element.faults)
    (completes : ∀ element ∈ elements,
      Completes last .assignment element.tokens element.tree element.faults)
    (separated : Separated (elements.map Piece.tokens) tokens)
    (closes : closing.is .rightBracket = true) :
    Completes last .primary (opening :: tokens ++ [closing])
      (.array closing (elements.map Piece.tree)) (itemFaults false 0 elements) := by
  intro rest
  rw [List.append_assoc, List.cons_append, primary_array (Token.is_iff.mp opens)]
  refine List.append_nil (itemFaults false 0 elements) ▸ Outcome.Accepts.behind
    ((listed_accepts (by decide) each completes separated closes).andThen fun _ => ?_)
  exact (Outcome.accepts_expect closes).map

/-- Every phrase is accepted by the rule of its level. -/
theorem phrase_completes (last : Token) {mode : Mode} {level : Level}
    (phrase : Phrase mode level tokens tree faults) : Completes last level tokens tree faults := by
  induction phrase with
  | inside next phrase ih => exact completes_inside next phrase ih
  | @assignName name sign tokens value faults named equals right ih =>
    have bare : Phrase .strict .primary [name] (.reference name) [] := .name named
    have leaf : Completes last .primary [name] (.reference name) [] :=
      completes_leaf (by rw [Token.leaf?, Token.is_iff.mp named])
    have target := completes_disjunction (.inside rfl bare) (completes_inside rfl bare leaf)
    simpa using completes_assigned target equals ih (.inl ⟨rfl, rfl⟩)
  | assignElement left opens place closes equals right ihLeft ihPlace ihRight =>
    have target := completes_disjunction (.subscript left opens place closes)
      (completes_subscript ihLeft opens ihPlace closes)
    simpa using completes_assigned target equals ihRight (.inl ⟨rfl, rfl⟩)
  | assignOther tolerated left noName noElement equals right ihLeft ihRight =>
    simpa using completes_assigned ihLeft equals ihRight
      (.inr ⟨assigned?_eq_none noName noElement, rfl, rfl⟩)
  | join joins before found after ihBefore ihAfter =>
    exact completes_join joins ihBefore found ihAfter
  | sign found operand ih =>
    intro rest ends
    rw [List.cons_append, signed_more (by simpa using found)]
    exact (ih rest ends).map.behind
  | call function opens each listed few closes ihFunction ihEach =>
    exact completes_call ihFunction opens each ihEach listed closes
  | subscript left opens place closes ihLeft ihPlace =>
    exact completes_subscript ihLeft opens ihPlace closes
  | number kind => exact completes_leaf (by rw [Token.leaf?, kind])
  | string kind => exact completes_leaf (by rw [Token.leaf?, kind])
  | falsehood found => exact completes_leaf (by rw [Token.leaf?, Token.is_iff.mp found])
  | truth found => exact completes_leaf (by rw [Token.leaf?, Token.is_iff.mp found])
  | nil found => exact completes_leaf (by rw [Token.leaf?, Token.is_iff.mp found])
  | name found => exact completes_leaf (by rw [Token.leaf?, Token.is_iff.mp found])
  | group opens phrase closes ih => exact completes_group opens ih closes
  | array opens each listed closes ih => exact completes_array opens each ih listed closes

/-- An expression is accepted whole. -/
theorem expression_completes {mode : Mode} (phrase : Phrase mode .assignment tokens tree faults) :
    (expression tokens).Accepts last tree [] faults := by
  have accepts := phrase_completes last phrase [] Level.endsAt_nil
  rwa [List.append_nil] at accepts

end Rule
end Script
