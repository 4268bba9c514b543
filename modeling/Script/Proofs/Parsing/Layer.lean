import Script.Proofs.Grammar.Phrase

/-! The layers of binary operators as levels of the grammar. -/

namespace Script

open Grammar

namespace Layer

/-- The level of the grammar that a layer of operators makes up. -/
def level : Layer → Level
  | .disjunction => .disjunction
  | .conjunction => .conjunction
  | .equality => .equality
  | .comparison => .comparison
  | .sum => .sum
  | .product => .product

/-- The level of the operands of a layer. -/
def operandLevel : Layer → Level
  | .disjunction => .conjunction
  | .conjunction => .equality
  | .equality => .comparison
  | .comparison => .sum
  | .sum => .product
  | .product => .signed

theorem inner?_level (layer : Layer) : layer.level.inner? = some layer.operandLevel := by
  cases layer <;> rfl

theorem operandLevel_of_some {layer inner : Layer} (found : layer.tighter? = some inner) :
    layer.operandLevel = inner.level := by
  cases layer <;> cases found <;> rfl

theorem operandLevel_of_none {layer : Layer} (found : layer.tighter? = none) :
    layer.operandLevel = .signed := by
  cases layer <;> cases found
  rfl

theorem joins_iff {layer : Layer} {token : Token} :
    layer.joins token = true ↔ ∃ tag ∈ layer.operators, token.is tag = true := by
  simp [joins, List.any_eq_true]

theorem joins_of_mem {layer : Layer} {tag : Tag} (member : tag ∈ layer.operators) :
    Joins layer.level tag layer.operandLevel layer.join := by
  cases layer <;> simp only [operators, List.mem_cons, List.not_mem_nil, or_false] at member
  · subst member
    exact .or
  · subst member
    exact .and
  · rcases member with rfl | rfl
    · exact .different
    · exact .same
  · rcases member with rfl | rfl | rfl | rfl
    · exact .greater
    · exact .greaterEqual
    · exact .less
    · exact .lessEqual
  · rcases member with rfl | rfl
    · exact .minus
    · exact .plus
  · rcases member with rfl | rfl
    · exact .times
    · exact .divided

end Layer

end Script
