import Script.Proofs.Grammar.Written

/-! Expressions that go on at their end. Behind an expression an operator and its operand, a call
or a subscript continue the last operand that they bind to, so two expressions in a row are most
often one. -/

namespace Script.Grammar

variable {mode : Mode} {level inner : Level} {tag : Tag} {node : Expr → Token → Expr → Expr}
  {tokens right added : List Token} {tree : Expr} {faults : List ParseError}

/-- How many levels are looser. -/
def Level.depth : Level → Nat
  | .assignment => 0
  | .disjunction => 1
  | .conjunction => 2
  | .equality => 3
  | .comparison => 4
  | .sum => 5
  | .product => 6
  | .signed => 7
  | .suffixed => 8
  | .primary => 9

theorem Level.depth_inner (next : level.inner? = some inner) : inner.depth = level.depth + 1 := by
  cases level <;> cases next <;> rfl

theorem Level.depth_injective {other : Level} (same : level.depth = other.depth) :
    level = other := by
  cases level <;> cases other <;> first | rfl | cases same

theorem Joins.depth_inner (joins : Joins level tag inner node) :
    inner.depth = level.depth + 1 := by
  cases joins <;> rfl

/-- The lenient grammar has all that the strict one has. -/
theorem Phrase.lenient (phrase : Phrase .strict level tokens tree faults) :
    Phrase .lenient level tokens tree faults := by
  induction phrase with
  | inside next phrase ih => exact .inside next ih
  | assignName named equals right ih => exact .assignName named equals ih
  | assignElement left opens place closes equals right ihLeft ihPlace ihRight =>
    exact .assignElement ihLeft opens ihPlace closes equals ihRight
  | assignOther lenient => cases lenient
  | join joins before found after ihBefore ihAfter => exact .join joins ihBefore found ihAfter
  | sign found operand ih => exact .sign found ih
  | call function opens each listed few closes ihFunction ihEach =>
    exact .call ihFunction opens ihEach listed nofun closes
  | subscript left opens place closes ihLeft ihPlace =>
    exact .subscript ihLeft opens ihPlace closes
  | number kind => exact .number kind
  | string kind => exact .string kind
  | falsehood found => exact .falsehood found
  | truth found => exact .truth found
  | nil found => exact .nil found
  | name found => exact .name found
  | group opens phrase closes ih => exact .group opens ih closes
  | array opens each listed closes ih => exact .array opens ih listed closes

/-- The tokens derive some tree at the level, without a fault. -/
def Sound (level : Level) (tokens : List Token) : Prop :=
  ∃ tree faults, Phrase .strict level tokens tree faults

/-- Behind any phrase of the level these tokens make it a longer one. -/
def Continues (level : Level) (added : List Token) : Prop :=
  ∀ tokens, Sound level tokens → Sound level (tokens ++ added)

/-- What continues the phrases of a level continues looser phrases, too, at their last operand. -/
theorem Continues.outward {outer : Level} (continues : Continues level added)
    (behind : level ≠ .primary) (looser : outer.depth ≤ level.depth) :
    Continues outer added := by
  rintro tokens ⟨tree, faults, phrase⟩
  have bound : level.depth ≤ 8 := by cases level <;> first | decide | exact absurd rfl behind
  induction phrase with
  | @inside outer middle tokens tree faults next phrase ih =>
    rcases Nat.eq_or_lt_of_le looser with same | less
    · exact Level.depth_injective same ▸ continues tokens
        (Level.depth_injective same ▸ ⟨tree, faults, .inside next phrase⟩)
    · obtain ⟨grown, others, longer⟩ := ih (by rw [Level.depth_inner next]; exact less)
      exact ⟨grown, others, .inside next longer⟩
  | assignName named equals right ih =>
    obtain ⟨grown, others, longer⟩ := ih looser
    exact ⟨_, _, .assignName named equals longer⟩
  | assignElement left opens place closes equals right ihLeft ihPlace ihRight =>
    obtain ⟨grown, others, longer⟩ := ihRight looser
    rw [List.append_assoc, List.cons_append, List.cons_append]
    exact ⟨_, _, .assignElement left opens place closes equals longer⟩
  | assignOther lenient => cases lenient
  | @join outer middle tag node operator leftTokens rightTokens left right leftFaults rightFaults
      joins before found after ihBefore ihAfter =>
    rcases Nat.eq_or_lt_of_le looser with same | less
    · exact Level.depth_injective same ▸ continues _
        (Level.depth_injective same ▸ ⟨_, _, .join joins before found after⟩)
    · obtain ⟨grown, others, longer⟩ := ihAfter (by rw [joins.depth_inner]; exact less)
      rw [List.append_assoc, List.cons_append]
      exact ⟨_, _, .join joins before found longer⟩
  | @sign operator tokens right faults found operand ih =>
    obtain ⟨grown, others, longer⟩ := ih looser
    exact ⟨_, _, .sign found longer⟩
  | call function opens each listed few closes =>
    have same : Level.suffixed = level :=
      Level.depth_injective (Nat.le_antisymm looser bound)
    exact same ▸ continues _ (same ▸ ⟨_, _, .call function opens each listed few closes⟩)
  | subscript left opens place closes =>
    have same : Level.suffixed = level :=
      Level.depth_injective (Nat.le_antisymm looser bound)
    exact same ▸ continues _ (same ▸ ⟨_, _, .subscript left opens place closes⟩)
  | _ => exact absurd (Nat.le_trans looser bound) (by decide)

/-- Every expression goes on with what continues the phrases of a level. -/
theorem Continues.assignment (continues : Continues level added) (behind : level ≠ .primary) :
    Continues .assignment added :=
  continues.outward behind (Nat.zero_le _)

theorem Continues.append {more : List Token} (first : Continues level added)
    (second : Continues level more) : Continues level (added ++ more) := by
  intro tokens sound
  rw [← List.append_assoc]
  exact second _ (first tokens sound)

theorem continues_operand {operator : Token} (joins : Joins level tag inner node)
    (found : operator.is tag = true) (operand : Phrase .strict inner right tree faults) :
    Continues .assignment (operator :: right) := by
  have here : Continues level (operator :: right) :=
    fun tokens ⟨_, _, before⟩ => ⟨_, _, .join joins before found operand⟩
  exact here.assignment (by rintro rfl; cases joins)

theorem continues_call {opening closing : Token} {listTokens : List Token}
    {arguments : List (Piece Expr)} (opens : opening.is .leftParen = true)
    (each : ∀ argument ∈ arguments,
      Phrase .strict .assignment argument.tokens argument.tree argument.faults)
    (listed : Separated (arguments.map Piece.tokens) listTokens) (few : arguments.length ≤ 255)
    (closes : closing.is .rightParen = true) :
    Continues .assignment (opening :: listTokens ++ [closing]) := by
  have here : Continues .suffixed (opening :: listTokens ++ [closing]) := by
    rintro tokens ⟨_, _, function⟩
    rw [← List.append_assoc]
    exact ⟨_, _, .call function opens each listed (fun _ => few) closes⟩
  exact here.assignment (by decide)

theorem continues_subscript {opening closing : Token} (opens : opening.is .leftBracket = true)
    (place : Phrase .strict .assignment tokens tree faults)
    (closes : closing.is .rightBracket = true) :
    Continues .assignment (opening :: tokens ++ [closing]) := by
  have here : Continues .suffixed (opening :: tokens ++ [closing]) := by
    rintro objectTokens ⟨_, _, object⟩
    rw [← List.append_assoc]
    exact ⟨_, _, .subscript object opens place closes⟩
  exact here.assignment (by decide)

/-- The categories that begin a phrase and also go on with one. -/
def jointTags : List Tag := [.minus, .leftParen, .leftBracket]

/-- The first token both begins a phrase and goes on with one. -/
def Adjoins (tokens : List Token) : Prop :=
  ∀ first ∈ tokens.head?, ∃ tag ∈ jointTags, first.is tag = true

/-- The tokens begin with an array literal that cannot be read as a subscript. -/
inductive OpensArray : List Token → Prop where
  | intro {opening closing : Token} {listTokens behind : List Token} {elements : List (Piece Expr)}
      (opens : opening.is .leftBracket)
      (each : ∀ element ∈ elements,
        Phrase .strict .assignment element.tokens element.tree element.faults)
      (listed : Separated (elements.map Piece.tokens) listTokens)
      (closes : closing.is .rightBracket) (several : elements.length ≠ 1) :
      OpensArray (opening :: (listTokens ++ closing :: behind))

theorem OpensArray.append (array : OpensArray tokens) (more : List Token) :
    OpensArray (tokens ++ more) := by
  obtain ⟨opens, each, listed, closes, several⟩ := array
  rw [List.cons_append, List.append_assoc, List.cons_append]
  exact .intro opens each listed closes several

theorem Among.not_joint {tags : List Tag} {token : Token} (among : Among tags token)
    (disjoint : ∀ tag ∈ jointTags, tag ∉ tags) : ¬∃ tag ∈ jointTags, token.is tag = true :=
  fun ⟨tag, member, found⟩ => disjoint tag member (among tag found)

theorem Phrase.adjoins_left (phrase : Phrase mode level tokens tree faults)
    (adjoins : Adjoins (tokens ++ right)) : Adjoins tokens := by
  obtain ⟨first, others, rfl, _⟩ := phrase.starts
  exact adjoins

/-- What is no assignment continues the expression before it, if its first token does, unless that
opens an array. -/
theorem Phrase.continues (phrase : Phrase .strict level tokens tree faults)
    (operand : level ≠ .assignment) (adjoins : Adjoins tokens) :
    Continues .assignment tokens ∨ OpensArray tokens := by
  induction phrase with
  | inside next phrase ih => exact ih (by rintro rfl; cases Level.depth_inner next) adjoins
  | assignName | assignElement | assignOther => exact absurd rfl operand
  | join joins before found after ihBefore ihAfter =>
    rcases ihBefore operand (before.adjoins_left adjoins) with continues | array
    · exact .inl (continues.append (continues_operand joins found after))
    · exact .inr (array.append _)
  | sign found right ih =>
    have joint := adjoins _ rfl
    rcases found with bang | minus
    · exact absurd joint ((among_of_is bang (List.mem_singleton.mpr rfl)).not_joint (by decide))
    · exact .inl (continues_operand .minus minus (.inside rfl right))
  | call function opens each listed few closes ihFunction =>
    rw [List.append_assoc] at adjoins ⊢
    rcases ihFunction (by decide) (function.adjoins_left adjoins) with continues | array
    · exact .inl (continues.append (continues_call opens each listed (few rfl) closes))
    · exact .inr (array.append _)
  | subscript left opens place closes ihLeft =>
    rw [List.append_assoc] at adjoins ⊢
    rcases ihLeft (by decide) (left.adjoins_left adjoins) with continues | array
    · exact .inl (continues.append (continues_subscript opens place closes))
    · exact .inr (array.append _)
  | @group opening closing tokens inner faults opens phrase closes =>
    have argument : ∀ argument ∈ [Piece.mk tokens inner faults],
        Phrase .strict .assignment argument.tokens argument.tree argument.faults := by
      simpa using phrase
    exact .inl (continues_call opens argument (.one tokens) (by simp) closes)
  | @array opening closing listTokens elements opens each listed closes =>
    by_cases single : elements.length = 1
    · obtain ⟨element, rfl⟩ := List.length_eq_one_iff.mp single
      cases listed
      exact .inl (continues_subscript opens (each element (by simp)) closes)
    · exact .inr (.intro opens each listed closes single)
  | number kind =>
    have among : Among [] _ := among_of_number kind
    exact absurd (adjoins _ rfl) (among.not_joint (by simp))
  | string kind =>
    have among : Among [] _ := among_of_string kind
    exact absurd (adjoins _ rfl) (among.not_joint (by simp))
  | falsehood found | truth found | nil found | name found =>
    exact absurd (adjoins _ rfl)
      ((among_of_is found (List.mem_singleton.mpr rfl)).not_joint (by decide))

/-- A target that is assigned a value is at most one fault away from an assignment. -/
theorem Phrase.assigned_one {sign : Token} {target value : Expr} {valueFaults : List ParseError}
    (left : Phrase .strict .disjunction tokens target faults) (equals : sign.is .equal = true)
    (given : Phrase .strict .assignment right value valueFaults) :
    ∃ tree faults, Phrase .lenient .assignment (tokens ++ sign :: right) tree faults ∧
      faults.length ≤ 1 := by
  have clean := left.faults_eq_nil
  have cleanValue := given.faults_eq_nil
  subst clean cleanValue
  by_cases named : ∃ name, target = .reference name
  · obtain ⟨name, rfl⟩ := named
    obtain ⟨rfl, identifier, _⟩ := left.eq_name
    exact ⟨_, _, .assignName identifier equals given.lenient, by simp⟩
  · by_cases element : ∃ object bracket index, target = .subscript object bracket index
    · obtain ⟨object, bracket, index, rfl⟩ := element
      obtain ⟨objectTokens, opening, indexTokens, objectFaults, indexFaults, rfl, none, object,
        opens, place, closes⟩ := left.eq_subscript
      obtain ⟨rfl, rfl⟩ := List.append_eq_nil_iff.mp none.symm
      have assignment := Phrase.assignElement object.lenient opens place.lenient closes equals
        given.lenient
      exact ⟨_, _, by simpa using assignment, by simp⟩
    · have noName : ∀ name, target ≠ .reference name := fun name same => named ⟨name, same⟩
      have noElement : ∀ object bracket index, target ≠ .subscript object bracket index :=
        fun object bracket index same => element ⟨object, bracket, index, same⟩
      exact ⟨_, _, .assignOther rfl left.lenient noName noElement equals given.lenient, by simp⟩

/-- So is an assignment whose value is assigned another value. -/
theorem Phrase.assigned {sign : Token} {target value : Expr} {valueFaults : List ParseError}
    (left : Phrase .strict .assignment tokens target faults) (equals : sign.is .equal = true)
    (given : Phrase .strict .assignment right value valueFaults) :
    ∃ tree faults, Phrase .lenient .assignment (tokens ++ sign :: right) tree faults ∧
      faults.length ≤ 1 := by
  generalize outermost : Level.assignment = level at left
  induction left with
  | inside next left =>
    subst outermost
    cases next
    exact left.assigned_one equals given
  | assignName named equals' middle ih =>
    obtain ⟨tree, faults, longer, few⟩ := ih rfl
    exact ⟨_, faults, .assignName named equals' longer, few⟩
  | assignElement object opens place closes equals' middle ihObject ihPlace ihMiddle =>
    obtain ⟨tree, faults, longer, few⟩ := ihMiddle rfl
    have clean := object.faults_eq_nil
    have cleanPlace := place.faults_eq_nil
    subst clean cleanPlace
    have assignment := Phrase.assignElement object.lenient opens place.lenient closes equals' longer
    exact ⟨_, faults, by simpa using assignment, few⟩
  | assignOther lenient => cases lenient
  | join joins => cases joins <;> cases outermost
  | _ => cases outermost

/-- Two expressions in a row are one with at most one fault, if the second begins with a token that
goes on with the first and opens no array. -/
theorem Phrase.adjoin {first second : Expr} {others : List ParseError}
    (left : Phrase .strict .assignment tokens first faults)
    (phrase : Phrase .strict .assignment right second others) (adjoins : Adjoins right) :
    OpensArray right ∨ ∃ tree faults,
      Phrase .lenient .assignment (tokens ++ right) tree faults ∧ faults.length ≤ 1 := by
  cases phrase with
  | inside next phrase =>
    cases next
    rcases phrase.continues (by decide) adjoins with continues | array
    · obtain ⟨tree, faults, longer⟩ := continues tokens ⟨first, faults, left⟩
      have clean := longer.faults_eq_nil
      subst clean
      exact .inr ⟨tree, [], longer.lenient, by simp⟩
    · exact .inl array
  | assignName named =>
    exact absurd (adjoins _ rfl)
      ((among_of_is named (List.mem_singleton.mpr rfl)).not_joint (by decide))
  | @assignElement opening closing sign objectTokens indexTokens valueTokens object index value
      objectFaults indexFaults valueFaults target opens place closes equals given =>
    have regroup : objectTokens ++ opening :: indexTokens ++ closing :: sign :: valueTokens =
        objectTokens ++ (opening :: indexTokens ++ [closing]) ++ sign :: valueTokens := by simp
    rw [regroup] at adjoins ⊢
    rw [List.append_assoc] at adjoins
    rcases target.continues (by decide) (target.adjoins_left adjoins) with continues | array
    · have element := continues.append (continues_subscript opens place closes)
      obtain ⟨tree, faults, longer⟩ := element tokens ⟨first, faults, left⟩
      rw [← List.append_assoc tokens]
      exact .inr (longer.assigned equals given)
    · exact .inl ((array.append _).append _)
  | assignOther lenient => cases lenient
  | join joins => cases joins

end Script.Grammar
