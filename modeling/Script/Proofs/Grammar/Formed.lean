import Script.Proofs.Scope.Declaration

/-! What the grammar fixes about the tokens that a tree keeps: the operators of each kind of node,
the brackets that close it, the names in it, and how long its lists may be. -/

namespace Script

/-- The operators whose operands are both evaluated. -/
def binaryOperators : List Tag :=
  [.equalEqual, .bangEqual, .greater, .greaterEqual, .less, .lessEqual, .plus, .minus, .star,
    .slash]

/-- An expression as the grammar makes it; `named` holds of the tokens that may be names. -/
inductive Expr.Formed (named : Token → Prop) : Expr → Prop where
  | literal (value : Literal) : Formed named (.literal value)
  | reference {name : Token} (names : named name) : Formed named (.reference name)
  | assign {name : Token} {value : Expr} (names : named name) (inner : Formed named value) :
      Formed named (.assign name value)
  | binary {left right : Expr} {operator : Token} (first : Formed named left)
      (known : ∃ tag ∈ binaryOperators, operator.is tag = true) (second : Formed named right) :
      Formed named (.binary left operator right)
  | logical {left right : Expr} {operator : Token} (first : Formed named left)
      (known : operator.is .andKeyword = true ∨ operator.is .orKeyword = true)
      (second : Formed named right) : Formed named (.logical left operator right)
  | unary {operator : Token} {right : Expr}
      (known : operator.is .bang = true ∨ operator.is .minus = true)
      (operand : Formed named right) : Formed named (.unary operator right)
  | call {callee : Expr} {paren : Token} {arguments : List Expr} (function : Formed named callee)
      (closes : paren.is .rightParen = true) (few : arguments.length ≤ 255)
      (each : ∀ argument ∈ arguments, Formed named argument) :
      Formed named (.call callee paren arguments)
  | grouping {inner : Expr} (within : Formed named inner) : Formed named (.grouping inner)
  | array {bracket : Token} {elements : List Expr} (closes : bracket.is .rightBracket = true)
      (each : ∀ element ∈ elements, Formed named element) : Formed named (.array bracket elements)
  | subscript {object index : Expr} {bracket : Token} (left : Formed named object)
      (closes : bracket.is .rightBracket = true) (place : Formed named index) :
      Formed named (.subscript object bracket index)
  | store {object index value : Expr} {bracket : Token} (left : Formed named object)
      (closes : bracket.is .rightBracket = true) (place : Formed named index)
      (right : Formed named value) : Formed named (.store object bracket index value)

/-- A statement as the grammar makes it. No branch or loop has a declaration for its body. -/
inductive Stmt.Formed (named : Token → Prop) : Stmt → Prop where
  | expression {value : Expr} (inner : value.Formed named) : Formed named (.expression value)
  | print {value : Expr} (inner : value.Formed named) : Formed named (.print value)
  | declare {name : Token} {initial : Option Expr} (names : named name)
      (first : ∀ value ∈ initial, value.Formed named) : Formed named (.declare name initial)
  | block {statements : List Stmt} (each : ∀ stmt ∈ statements, Formed named stmt) :
      Formed named (.block statements)
  | branch {condition : Expr} {consequence : Stmt} {alternative : Option Stmt}
      (tested : condition.Formed named) (inner : Formed named consequence)
      (plain : consequence.declaration? = none)
      (other : ∀ stmt ∈ alternative, Formed named stmt)
      (otherPlain : ∀ stmt ∈ alternative, stmt.declaration? = none) :
      Formed named (.branch condition consequence alternative)
  | loop {condition : Expr} {body : Stmt} (tested : condition.Formed named)
      (inner : Formed named body) (plain : body.declaration? = none) :
      Formed named (.loop condition body)
  | function {name : Token} {parameters : List Token} {body : List Stmt} (names : named name)
      (each : ∀ parameter ∈ parameters, named parameter) (few : parameters.length ≤ 255)
      (inner : ∀ stmt ∈ body, Formed named stmt) : Formed named (.function name parameters body)
  | returning {keyword : Token} {value : Option Expr}
      (result : ∀ expr ∈ value, expr.Formed named) : Formed named (.returning keyword value)

/-- All names among some tokens are names of the kind that is asked for. -/
def NamesAre (named : Token → Prop) (tokens : List Token) : Prop :=
  ∀ token ∈ tokens, token.is .identifier = true → named token

section

variable {named : Token → Prop} {first : Token} {tokens others : List Token}

@[simp] theorem namesAre_append :
    NamesAre named (tokens ++ others) ↔ NamesAre named tokens ∧ NamesAre named others :=
  List.forall_mem_append

@[simp] theorem namesAre_cons :
    NamesAre named (first :: tokens) ↔
      (first.is .identifier = true → named first) ∧ NamesAre named tokens :=
  List.forall_mem_cons

end

namespace Grammar

variable {named : Token → Prop} {level : Level} {form : Form} {tokens : List Token}
  {faults : List ParseError}

/-- The tokens of each part are among those of the list. -/
theorem Separated.namesAre {parts : List (List Token)} (listed : Separated parts tokens)
    (names : NamesAre named tokens) : ∀ part ∈ parts, NamesAre named part :=
  listed.forall_parts names

/-- The operators that group to the left are logical or binary ones. -/
theorem Joins.formed {inner : Level} {tag : Tag} {node : Expr → Token → Expr → Expr}
    {operator : Token} {left right : Expr} (joins : Joins level tag inner node)
    (found : operator.is tag = true) (first : left.Formed named) (second : right.Formed named) :
    (node left operator right).Formed named := by
  cases joins with
  | or => exact .logical first (.inr found) second
  | and => exact .logical first (.inl found) second
  | _ => exact .binary first ⟨_, by decide, found⟩ second

/-- What derives from the strict grammar is formed. -/
theorem Phrase.formed {tree : Expr} (phrase : Phrase .strict level tokens tree faults)
    (names : NamesAre named tokens) : tree.Formed named := by
  induction phrase with
  | inside next phrase ih => exact ih names
  | assignName identifier equals right ih =>
    obtain ⟨ofName, _, behind⟩ := by simpa using names
    exact .assign (ofName identifier) (ih behind)
  | assignElement left opens place closes equals right ihLeft ihPlace ihRight =>
    simp only [namesAre_append, namesAre_cons] at names
    obtain ⟨⟨ofObject, _, ofIndex⟩, _, _, ofValue⟩ := names
    exact .store (ihLeft ofObject) closes (ihPlace ofIndex) (ihRight ofValue)
  | assignOther lenient => cases lenient
  | join joins before found after ihBefore ihAfter =>
    simp only [namesAre_append, namesAre_cons] at names
    obtain ⟨ofLeft, _, ofRight⟩ := names
    exact joins.formed found (ihBefore ofLeft) (ihAfter ofRight)
  | sign found operand ih =>
    simp only [namesAre_cons] at names
    exact .unary found (ih names.2)
  | call function opens each listed few closes ihFunction ihEach =>
    simp only [namesAre_append, namesAre_cons] at names
    obtain ⟨⟨ofCallee, _, ofList⟩, _⟩ := names
    have ofArgument := List.forall_mem_map.mp (listed.namesAre ofList)
    have arguments := few rfl
    refine .call (ihFunction ofCallee) closes (by simpa using arguments) ?_
    exact List.forall_mem_map.mpr fun argument member =>
      ihEach argument member (ofArgument argument member)
  | subscript left opens place closes ihLeft ihPlace =>
    simp only [namesAre_append, namesAre_cons] at names
    obtain ⟨⟨ofObject, _, ofIndex⟩, _⟩ := names
    exact .subscript (ihLeft ofObject) closes (ihPlace ofIndex)
  | name found =>
    simp only [namesAre_cons] at names
    exact .reference (names.1 found)
  | group opens phrase closes ih =>
    simp only [namesAre_append, namesAre_cons] at names
    exact .grouping (ih names.1.2)
  | array opens each listed closes ihEach =>
    simp only [namesAre_append, namesAre_cons] at names
    have ofElement := List.forall_mem_map.mp (listed.namesAre names.1.2)
    refine .array closes ?_
    exact List.forall_mem_map.mpr fun element member =>
      ihEach element member (ofElement element member)
  | number | string | falsehood | truth | nil => exact .literal _

theorem Maybe.formed {value : Option Expr} (maybe : Maybe .strict tokens value faults)
    (names : NamesAre named tokens) : ∀ expr ∈ value, expr.Formed named := by
  cases maybe with
  | none => simp
  | some phrase => simpa using phrase.formed names

theorem Variable.formed {tree : Stmt} (declared : Variable .strict tokens tree faults)
    (names : NamesAre named tokens) : tree.Formed named := by
  cases declared with
  | bare declares identifier closes =>
    simp only [namesAre_cons] at names
    exact .declare (names.2.1 identifier) (by simp)
  | initial declares identifier equals phrase closes =>
    simp only [namesAre_append, namesAre_cons] at names
    obtain ⟨⟨_, ofName, _, ofValue⟩, _⟩ := names
    exact .declare (ofName identifier) (by simpa using phrase.formed ofValue)

theorem Initial.formed {initial : Option Stmt} (first : Initial .strict tokens initial faults)
    (names : NamesAre named tokens) : ∀ stmt ∈ initial, stmt.Formed named := by
  cases first with
  | none => simp
  | declaration declared => simpa using declared.formed names
  | expression phrase closes =>
    simp only [namesAre_append] at names
    simpa using Stmt.Formed.expression (phrase.formed names.1)

theorem withStep_formed {step : Option Expr} {body : Stmt} (inner : body.Formed named)
    (counts : ∀ expr ∈ step, expr.Formed named) : (withStep step body).Formed named := by
  cases step with
  | none => exact inner
  | some step => exact .block (by simpa using ⟨inner, .expression (counts step rfl)⟩)

theorem withInitial_formed {initial : Option Stmt} {loop : Stmt} (inner : loop.Formed named)
    (first : ∀ stmt ∈ initial, stmt.Formed named) : (withInitial initial loop).Formed named := by
  cases initial with
  | none => exact inner
  | some initial => exact .block (by simpa using ⟨first initial rfl, inner⟩)

/-- The statements of a body are formed if each is by itself. -/
theorem formed_of_parts {body : List (Piece Stmt)}
    (each : ∀ part ∈ body, NamesAre named part.tokens → part.tree.Formed named)
    (names : NamesAre named (body.flatMap Piece.tokens)) :
    ∀ stmt ∈ body.map Piece.tree, stmt.Formed named := by
  refine List.forall_mem_map.mpr fun part member => each part member fun token inside => ?_
  exact names token (List.mem_flatMap.mpr ⟨part, member, inside⟩)

/-- What derives from the strict grammar is formed. -/
theorem Sentence.formed {tree : Stmt} (sentence : Sentence .strict form tokens tree faults)
    (names : NamesAre named tokens) : tree.Formed named := by
  have plain {dangling : Bool} {tokens : List Token} {tree : Stmt} {faults : List ParseError}
      (sentence : Sentence .strict (.statement dangling) tokens tree faults) :
      tree.declaration? = none := sentence.orderly.2 (by simp)
  induction sentence with
  | function declares identifier opens each listed few closes bodyOpens inner bodyCloses ih =>
    simp only [namesAre_append, namesAre_cons] at names
    obtain ⟨⟨⟨_, ofName, _, ofList⟩, _, _, ofBody⟩, _⟩ := names
    have ofParameter := List.forall_mem_map.mp (listed.namesAre ofList)
    refine .function (ofName identifier) ?_ (few rfl) (formed_of_parts ih ofBody)
    intro parameter member
    exact ofParameter parameter member parameter (List.mem_singleton_self parameter)
      (each parameter member)
  | declaration declared => exact declared.formed names
  | statement sentence ih => exact ih names
  | counting loops opens first tested separates steps closes inner ih =>
    simp only [namesAre_append, namesAre_cons] at names
    obtain ⟨⟨⟨⟨_, _, ofInitial⟩, ofCondition⟩, _, ofStep⟩, _, ofBody⟩ := names
    refine withInitial_formed (.loop ?_ ?_ ?_) (first.formed ofInitial)
    · cases tested with
      | none => exact .literal _
      | some phrase => exact phrase.formed ofCondition
    · exact withStep_formed (ih ofBody) (steps.formed ofStep)
    · exact (withStep_orderly _ inner.orderly.1 (plain inner)).2
  | branch branches opens tested closes inner ih =>
    simp only [namesAre_append, namesAre_cons] at names
    obtain ⟨⟨_, _, ofCondition⟩, _, ofBody⟩ := names
    exact .branch (tested.formed ofCondition) (ih ofBody) (plain inner) (by simp) (by simp)
  | alternative branches opens tested closes inner otherwise outer ih ihOuter =>
    simp only [namesAre_append, namesAre_cons] at names
    obtain ⟨⟨⟨_, _, ofCondition⟩, _, ofBody⟩, _, ofOther⟩ := names
    exact .branch (tested.formed ofCondition) (ih ofBody) (plain inner)
      (by simpa using ihOuter ofOther) (by simpa using plain outer)
  | loop loops opens tested closes inner ih =>
    simp only [namesAre_append, namesAre_cons] at names
    obtain ⟨⟨_, _, ofCondition⟩, _, ofBody⟩ := names
    exact .loop (tested.formed ofCondition) (ih ofBody) (plain inner)
  | returning returns result closes =>
    simp only [namesAre_append, namesAre_cons] at names
    exact .returning (result.formed names.1.2)
  | block opens inner closes ih =>
    simp only [namesAre_append, namesAre_cons] at names
    exact .block (formed_of_parts ih names.1.2)
  | print prints phrase closes =>
    simp only [namesAre_append, namesAre_cons] at names
    exact .print (phrase.formed names.1.2)
  | expression phrase closes =>
    simp only [namesAre_append] at names
    exact .expression (phrase.formed names.1)

theorem Program.formed {statements : List Stmt} (program : Program .strict tokens statements faults)
    (names : NamesAre named tokens) : ∀ stmt ∈ statements, stmt.Formed named := by
  obtain ⟨parts, each, rfl, rfl, _⟩ := program
  exact formed_of_parts (fun part member => (each part member).formed) names

end Grammar
end Script
