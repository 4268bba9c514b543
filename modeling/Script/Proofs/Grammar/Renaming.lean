import Script.Proofs.Grammar.Sentence
import Script.Proofs.Grammar.Written

/-! Programs with other names. Names are the lexemes of identifiers, and the grammar does not look
at lexemes: from tokens that are renamed derives the tree that is renamed. -/

namespace Script

/-- The token with another name for a lexeme. -/
def Token.rename (change : String → String) (token : Token) : Token :=
  { token with lexeme := change token.lexeme }

/-- The token with another name if it is one. -/
def Token.renameIdentifier (change : String → String) (token : Token) : Token :=
  if token.is .identifier then token.rename change else token

mutual

/-- The expression with other names; of its tokens only those that name a variable are others. -/
def Expr.rename (change : String → String) : Expr → Expr
  | .literal value => .literal value
  | .reference name => .reference (name.rename change)
  | .assign name value => .assign (name.rename change) (value.rename change)
  | .binary left operator right => .binary (left.rename change) operator (right.rename change)
  | .logical left operator right => .logical (left.rename change) operator (right.rename change)
  | .unary operator right => .unary operator (right.rename change)
  | .call callee paren arguments =>
    .call (callee.rename change) paren (Expr.renameAll change arguments)
  | .grouping inner => .grouping (inner.rename change)
  | .array bracket elements => .array bracket (Expr.renameAll change elements)
  | .subscript object bracket index =>
    .subscript (object.rename change) bracket (index.rename change)
  | .store object bracket index value =>
    .store (object.rename change) bracket (index.rename change) (value.rename change)

def Expr.renameAll (change : String → String) : List Expr → List Expr
  | [] => []
  | first :: rest => first.rename change :: Expr.renameAll change rest

end

mutual

/-- The statement with other names, also for what it declares. -/
def Stmt.rename (change : String → String) : Stmt → Stmt
  | .expression value => .expression (value.rename change)
  | .print value => .print (value.rename change)
  | .declare name initial => .declare (name.rename change) (initial.map (Expr.rename change))
  | .block statements => .block (Stmt.renameAll change statements)
  | .branch condition consequence alternative =>
    .branch (condition.rename change) (consequence.rename change)
      (Stmt.renameOptional change alternative)
  | .loop condition body => .loop (condition.rename change) (body.rename change)
  | .function name parameters body =>
    .function (name.rename change) (parameters.map (Token.rename change))
      (Stmt.renameAll change body)
  | .returning keyword value => .returning keyword (value.map (Expr.rename change))

def Stmt.renameOptional (change : String → String) : Option Stmt → Option Stmt
  | none => none
  | some statement => some (statement.rename change)

def Stmt.renameAll (change : String → String) : List Stmt → List Stmt
  | [] => []
  | first :: rest => first.rename change :: Stmt.renameAll change rest

end

variable {change : String → String}

theorem Expr.renameAll_eq (exprs : List Expr) :
    Expr.renameAll change exprs = exprs.map (Expr.rename change) := by
  induction exprs with
  | nil => rfl
  | cons first rest ih => rw [renameAll, ih, List.map_cons]

theorem Stmt.renameAll_eq (statements : List Stmt) :
    Stmt.renameAll change statements = statements.map (Stmt.rename change) := by
  induction statements with
  | nil => rfl
  | cons first rest ih => rw [renameAll, ih, List.map_cons]

theorem Token.renameIdentifier_of_name {token : Token} (found : token.is .identifier = true) :
    token.renameIdentifier change = token.rename change := if_pos found

theorem Token.renameIdentifier_of_other {token : Token}
    (absent : token.is .identifier = false) : token.renameIdentifier change = token :=
  if_neg (by simp [absent])

/-- Categories are not touched. -/
@[simp] theorem Token.kind_renameIdentifier (token : Token) :
    (token.renameIdentifier change).kind = token.kind := by
  unfold renameIdentifier
  split <;> rfl

@[simp] theorem Token.is_renameIdentifier (token : Token) (tag : Tag) :
    (token.renameIdentifier change).is tag = token.is tag := by
  simp only [Token.is, kind_renameIdentifier]

namespace Grammar

variable {level : Level} {form : Form} {tokens : List Token} {faults : List ParseError}

/-- A renamed token is of the category it was of. -/
theorem renamed_is (change : String → String) {token : Token} {tag : Tag}
    (found : token.is tag = true) : (token.renameIdentifier change).is tag = true := by
  rw [Token.is_renameIdentifier, found]

/-- A token of another category keeps its lexeme. -/
theorem renameIdentifier_eq {token : Token} {tag : Tag} (found : token.is tag = true)
    (other : tag ≠ .identifier) : token.renameIdentifier change = token := by
  have among : Among [tag] token := among_of_is found (List.mem_singleton_self tag)
  exact Token.renameIdentifier_of_other (among.is_eq_false (by simpa using other.symm))

/-- A list is separated by the same commas when its tokens are renamed. -/
theorem Separated.rename {parts : List (List Token)} (listed : Separated parts tokens) :
    Separated (parts.map (List.map (Token.renameIdentifier change)))
      (tokens.map (Token.renameIdentifier change)) := by
  induction listed with
  | none => exact .none
  | one part => exact .one _
  | more between rest ih =>
    rw [List.map_append, List.map_cons]
    exact .more (renamed_is change between) ih

/-- A list item with other names. -/
def Piece.rename {α : Type} (image : α → α) (change : String → String) (piece : Piece α) :
    Piece α :=
  ⟨piece.tokens.map (Token.renameIdentifier change), image piece.tree, []⟩

theorem map_tokens_rename {α : Type} (image : α → α) (pieces : List (Piece α)) :
    (pieces.map (Piece.rename image change)).map Piece.tokens =
      (pieces.map Piece.tokens).map (List.map (Token.renameIdentifier change)) := by
  simp only [List.map_map]
  rfl

theorem map_tree_rename {α : Type} {image : α → α} (pieces : List (Piece α)) :
    (pieces.map (Piece.rename image change)).map Piece.tree =
      (pieces.map Piece.tree).map image := by
  simp only [List.map_map]
  rfl

theorem flatMap_tokens_rename {α : Type} {image : α → α} (pieces : List (Piece α)) :
    (pieces.map (Piece.rename image change)).flatMap Piece.tokens =
      (pieces.flatMap Piece.tokens).map (Token.renameIdentifier change) := by
  rw [List.flatMap_map, List.map_flatMap]
  rfl

theorem flatMap_faults_rename {α : Type} {image : α → α} (pieces : List (Piece α)) :
    (pieces.map (Piece.rename image change)).flatMap Piece.faults = [] := by
  simp [Piece.rename]

theorem itemFaults_rename {limited : Bool} {image : Expr → Expr} (items : List (Piece Expr))
    (few : limited = true → items.length ≤ 255) :
    itemFaults limited 0 (items.map (Piece.rename image change)) = [] := by
  refine itemFaults_eq_nil (by simpa using few) (List.forall_mem_map.mpr ?_)
  intro item _
  rfl

/-- Operators keep their categories. -/
theorem Joins.rename {inner : Level} {tag : Tag} {node : Expr → Token → Expr → Expr}
    {operator : Token} {left right : Expr} (joins : Joins level tag inner node)
    (found : operator.is tag = true) :
    (node left operator right).rename change =
      node (left.rename change) (operator.renameIdentifier change) (right.rename change) := by
  rw [renameIdentifier_eq found (by cases joins <;> decide)]
  cases joins <;> rfl

/-- Renamed tokens derive the renamed tree. -/
theorem Phrase.rename {tree : Expr} (phrase : Phrase .strict level tokens tree faults) :
    Phrase .strict level (tokens.map (Token.renameIdentifier change)) (tree.rename change) [] := by
  induction phrase with
  | inside next phrase ih => exact .inside next ih
  | assignName named equals right ih =>
    rw [List.map_cons, List.map_cons, Token.renameIdentifier_of_name named]
    exact .assignName named (renamed_is change equals) ih
  | assignElement left opens place closes equals right ihLeft ihPlace ihRight =>
    simp only [List.map_append, List.map_cons, renameIdentifier_eq closes (by decide)]
    exact .assignElement ihLeft (renamed_is change opens) ihPlace closes (renamed_is change equals)
      ihRight
  | assignOther lenient => cases lenient
  | join joins before found after ihBefore ihAfter =>
    rw [joins.rename found, List.map_append, List.map_cons]
    exact .join joins ihBefore (renamed_is change found) ihAfter
  | @sign operator _ _ _ found operand ih =>
    have same : operator.renameIdentifier change = operator := by
      rcases found with bang | minus
      · exact renameIdentifier_eq bang (by decide)
      · exact renameIdentifier_eq minus (by decide)
    rw [List.map_cons, same]
    exact .sign found ih
  | @call _ _ _ _ _ arguments _ function opens each listed few closes ihFunction ihEach =>
    have few : arguments.length ≤ 255 := few rfl
    have items := @Separated.rename change _ _ listed
    rw [← map_tokens_rename (Expr.rename change)] at items
    have node := Phrase.call ihFunction (renamed_is change opens)
      (List.forall_mem_map.mpr ihEach) items (by simpa using few) closes
    rw [map_tree_rename, itemFaults_rename arguments (by simpa using few)] at node
    simpa [Expr.rename, Expr.renameAll_eq, renameIdentifier_eq closes] using node
  | subscript left opens place closes ihLeft ihPlace =>
    simp only [List.map_append, List.map_cons, List.map_nil, renameIdentifier_eq closes (by decide)]
    exact .subscript ihLeft (renamed_is change opens) ihPlace closes
  | number kind => exact .number (by simpa using kind)
  | string kind => exact .string (by simpa using kind)
  | falsehood found => exact .falsehood (renamed_is change found)
  | truth found => exact .truth (renamed_is change found)
  | nil found => exact .nil (renamed_is change found)
  | name found =>
    rw [List.map_singleton, Token.renameIdentifier_of_name found]
    exact .name found
  | group opens phrase closes ih =>
    simp only [List.map_append, List.map_cons, List.map_nil]
    exact .group (renamed_is change opens) ih (renamed_is change closes)
  | @array opening closing listTokens elements opens each listed closes ihEach =>
    have items := @Separated.rename change _ _ listed
    rw [← map_tokens_rename (Expr.rename change)] at items
    have node := Phrase.array (renamed_is change opens)
      (List.forall_mem_map.mpr ihEach) items closes
    rw [map_tree_rename, itemFaults_rename elements (by simp)] at node
    simpa [Expr.rename, Expr.renameAll_eq, renameIdentifier_eq closes] using node

theorem Maybe.rename {value : Option Expr} (maybe : Maybe .strict tokens value faults) :
    Maybe .strict (tokens.map (Token.renameIdentifier change)) (value.map (Expr.rename change))
      [] := by
  cases maybe with
  | none => exact .none
  | some phrase => exact .some phrase.rename

theorem Variable.rename {tree : Stmt} (declared : Variable .strict tokens tree faults) :
    Variable .strict (tokens.map (Token.renameIdentifier change)) (tree.rename change) [] := by
  cases declared with
  | bare declares named closes =>
    simp only [List.map_cons, List.map_nil, Token.renameIdentifier_of_name named]
    exact .bare (renamed_is change declares) named (renamed_is change closes)
  | initial declares named equals phrase closes =>
    simp only [List.map_append, List.map_cons, List.map_nil, Token.renameIdentifier_of_name named]
    exact .initial (renamed_is change declares) named (renamed_is change equals) phrase.rename
      (renamed_is change closes)

theorem Initial.rename {initial : Option Stmt} (first : Initial .strict tokens initial faults) :
    Initial .strict (tokens.map (Token.renameIdentifier change))
      (initial.map (Stmt.rename change)) [] := by
  cases first with
  | none closes => exact .none (renamed_is change closes)
  | declaration declared => exact .declaration declared.rename
  | expression phrase closes =>
    rw [List.map_append, List.map_singleton]
    exact .expression phrase.rename (renamed_is change closes)

/-- The loop that a counting loop stands for is renamed in all its parts. -/
theorem rename_counting (initial : Option Stmt) (condition step : Option Expr) (body : Stmt) :
    (withInitial initial
      (.loop (condition.getD (.literal (.boolean true))) (withStep step body))).rename change =
    withInitial (initial.map (Stmt.rename change))
      (.loop ((condition.map (Expr.rename change)).getD (.literal (.boolean true)))
        (withStep (step.map (Expr.rename change)) (body.rename change))) := by
  cases initial <;> cases condition <;> cases step <;> rfl

/-- Parameters are identifiers, so each of them is renamed. -/
theorem rename_parameters {parameters : List Token}
    (each : ∀ parameter ∈ parameters, parameter.is .identifier = true) :
    (parameters.map ([·])).map (List.map (Token.renameIdentifier change)) =
      (parameters.map (Token.rename change)).map ([·]) := by
  simp only [List.map_map]
  refine List.map_congr_left fun parameter member => ?_
  simp [Token.renameIdentifier_of_name (each parameter member)]

/-- Renamed tokens derive the renamed tree. -/
theorem Sentence.rename {tree : Stmt} (sentence : Sentence .strict form tokens tree faults) :
    Sentence .strict form (tokens.map (Token.renameIdentifier change)) (tree.rename change)
      [] := by
  induction sentence with
  | @function _ name _ _ _ _ _ parameters body declares named opens each listed few closes bodyOpens
      inner bodyCloses ih =>
    have few : (parameters.map (Token.rename change)).length ≤ 255 := by simpa using few rfl
    have parts : ∀ part ∈ body.map (Piece.rename (Stmt.rename change) change),
        Sentence .strict .declaration part.tokens part.tree part.faults :=
      List.forall_mem_map.mpr ih
    have renamed : (name.rename change).is .identifier = true := named
    have parametersRenamed : ∀ parameter ∈ parameters.map (Token.rename change),
        parameter.is .identifier = true := List.forall_mem_map.mpr each
    have node := Sentence.function (renamed_is change declares) renamed (renamed_is change opens)
      parametersRenamed (rename_parameters each ▸ listed.rename) (fun _ => few)
      (renamed_is change closes) (renamed_is change bodyOpens) parts (renamed_is change bodyCloses)
    rw [flatMap_faults_rename, flatMap_tokens_rename, map_tree_rename, parameterFaults,
      List.drop_eq_nil_of_le few] at node
    simpa [Stmt.rename, Stmt.renameAll_eq, Token.renameIdentifier_of_name named] using node
  | declaration declared => exact .declaration declared.rename
  | statement sentence ih => exact .statement ih
  | counting loops opens first tested separates steps closes inner ih =>
    rw [rename_counting]
    simp only [List.map_append, List.map_cons]
    exact .counting (renamed_is change loops) (renamed_is change opens) first.rename tested.rename
      (renamed_is change separates) steps.rename (renamed_is change closes) ih
  | branch branches opens tested closes inner ih =>
    simp only [List.map_append, List.map_cons]
    exact .branch (renamed_is change branches) (renamed_is change opens) tested.rename
      (renamed_is change closes) ih
  | alternative branches opens tested closes inner otherwise outer ih ihOuter =>
    simp only [List.map_append, List.map_cons]
    exact .alternative (renamed_is change branches) (renamed_is change opens) tested.rename
      (renamed_is change closes) ih (renamed_is change otherwise) ihOuter
  | loop loops opens tested closes inner ih =>
    simp only [List.map_append, List.map_cons]
    exact .loop (renamed_is change loops) (renamed_is change opens) tested.rename
      (renamed_is change closes) ih
  | returning returns result closes =>
    simp only [List.map_append, List.map_cons, List.map_nil,
      renameIdentifier_eq returns (by decide)]
    exact .returning returns result.rename (renamed_is change closes)
  | @block opening _ body opens inner closes ih =>
    have parts : ∀ part ∈ body.map (Piece.rename (Stmt.rename change) change),
        Sentence .strict .declaration part.tokens part.tree part.faults :=
      List.forall_mem_map.mpr ih
    have node := Sentence.block (renamed_is change opens) parts (renamed_is change closes)
    rw [flatMap_faults_rename, flatMap_tokens_rename, map_tree_rename] at node
    simpa [Stmt.rename, Stmt.renameAll_eq] using node
  | print prints phrase closes =>
    simp only [List.map_append, List.map_cons, List.map_nil]
    exact .print (renamed_is change prints) phrase.rename (renamed_is change closes)
  | expression phrase closes =>
    rw [List.map_append, List.map_singleton]
    exact .expression phrase.rename (renamed_is change closes)

theorem Program.rename {statements : List Stmt}
    (program : Program .strict tokens statements faults) :
    Program .strict (tokens.map (Token.renameIdentifier change))
      (statements.map (Stmt.rename change)) [] := by
  obtain ⟨parts, each, rfl, rfl, _⟩ := program
  refine ⟨parts.map (Piece.rename (Stmt.rename change) change), ?_, flatMap_tokens_rename parts,
    map_tree_rename parts, flatMap_faults_rename parts⟩
  exact List.forall_mem_map.mpr fun part member => (each part member).rename

end Grammar
end Script
