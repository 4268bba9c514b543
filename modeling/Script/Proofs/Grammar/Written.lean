import Script.Proofs.Grammar.Phrase
import Script.Tree.PrefixForm

/-! The tokens of a tree. The tree keeps only some of them; the others are made up, and it does
not matter how. -/

namespace Script

/-- A token of the category, on the first line. -/
def Tag.mark (tag : Tag) (lexeme : String) : Token := ⟨.plain tag, lexeme, 1⟩

@[simp] theorem Tag.mark_is (tag : Tag) (lexeme : String) : (tag.mark lexeme).is tag = true := by
  simp [mark, Token.is, Kind.tag?]

def Literal.written : Literal → Token
  | .number value => ⟨.number value, Literal.numberStyle.write value, 1⟩
  | .string text => ⟨.string text, "\"" ++ text ++ "\"", 1⟩
  | .boolean true => Tag.trueKeyword.mark "true"
  | .boolean false => Tag.falseKeyword.mark "false"
  | .nil => Tag.nilKeyword.mark "nil"

mutual

def Expr.written : Expr → List Token
  | .literal value => [value.written]
  | .reference name => [name]
  | .assign name value => name :: Tag.equal.mark "=" :: value.written
  | .binary left operator right | .logical left operator right =>
    left.written ++ operator :: right.written
  | .unary operator right => operator :: right.written
  | .call callee paren arguments =>
    callee.written ++ Tag.leftParen.mark "(" :: Expr.writtenItems arguments ++ [paren]
  | .grouping inner =>
    Tag.leftParen.mark "(" :: inner.written ++ [Tag.rightParen.mark ")"]
  | .array bracket elements =>
    Tag.leftBracket.mark "[" :: Expr.writtenItems elements ++ [bracket]
  | .subscript object bracket index =>
    object.written ++ Tag.leftBracket.mark "[" :: index.written ++ [bracket]
  | .store object bracket index value =>
    object.written ++ Tag.leftBracket.mark "[" :: index.written ++
      bracket :: Tag.equal.mark "=" :: value.written

/-- Items with a comma between neighbours. -/
def Expr.writtenItems : List Expr → List Token
  | [] => []
  | item :: items => item.written ++ Expr.writtenBehind items

/-- Items with a comma before each. -/
def Expr.writtenBehind : List Expr → List Token
  | [] => []
  | item :: items => Tag.comma.mark "," :: item.written ++ Expr.writtenBehind items

end

namespace Grammar

variable {mode : Mode} {level : Level} {tokens : List Token} {tree : Expr}
  {faults : List ParseError}

/-- A tree by itself, with the tokens it is written in. -/
def writtenPiece (tree : Expr) : Piece Expr := ⟨tree.written, tree, []⟩

@[simp] theorem map_tokens_written (trees : List Expr) :
    (trees.map writtenPiece).map Piece.tokens = trees.map Expr.written := List.map_map

@[simp] theorem map_tree_written (trees : List Expr) :
    (trees.map writtenPiece).map Piece.tree = trees := List.map_map.trans (List.map_id trees)

theorem separated_written (trees : List Expr) :
    Separated ((trees.map writtenPiece).map Piece.tokens) (Expr.writtenItems trees) := by
  rw [map_tokens_written]
  cases trees with
  | nil => exact .none
  | cons item items =>
    induction items generalizing item with
    | nil => simpa [Expr.writtenItems, Expr.writtenBehind] using Separated.one item.written
    | cons next items ih =>
      have more : Separated _ (item.written ++ _) := .more (Tag.mark_is .comma ",") (ih next)
      simpa [Expr.writtenItems, Expr.writtenBehind] using more

theorem itemFaults_eq_nil {limited : Bool} {count : Nat} {items : List (Piece Expr)}
    (few : limited = true → count + items.length ≤ 255)
    (clean : ∀ item ∈ items, item.faults = []) : itemFaults limited count items = [] := by
  induction items generalizing count with
  | nil => rfl
  | cons item items ih =>
    obtain ⟨itemClean, othersClean⟩ := List.forall_mem_cons.mp clean
    simp only [List.length_cons] at few
    have within : ¬(limited && decide (255 ≤ count)) = true := by
      simp only [Bool.and_eq_true, decide_eq_true_eq, not_and]
      intro isLimited
      have := few isLimited
      omega
    have others := @ih (count + 1) (fun isLimited => by have := few isLimited; omega) othersClean
    rw [itemFaults, excess, if_neg within, itemClean, others]
    rfl

/-- The strict grammar has no faults. -/
theorem Phrase.faults_eq_nil (phrase : Phrase .strict level tokens tree faults) : faults = [] := by
  induction phrase with
  | inside next phrase ih => exact ih
  | assignName named equals right ih => exact ih
  | assignElement left opens place closes equals right ihLeft ihPlace ihRight =>
    rw [ihLeft, ihPlace, ihRight, List.append_nil, List.append_nil]
  | assignOther lenient => cases lenient
  | join joins before found after ihBefore ihAfter => rw [ihBefore, ihAfter, List.append_nil]
  | sign found operand ih => exact ih
  | call function opens each listed few closes ihFunction ihEach =>
    rw [ihFunction, itemFaults_eq_nil (by simpa using few) ihEach, List.append_nil]
  | subscript left opens place closes ihLeft ihPlace => rw [ihLeft, ihPlace, List.append_nil]
  | group opens phrase closes ih => exact ih
  | array opens each listed closes ih => exact itemFaults_eq_nil (by simp) ih
  | _ => rfl

/-- Trees that derive from the tokens they are written in, as list items. -/
theorem phrases_written {trees : List Expr}
    (each : ∀ tree ∈ trees, Phrase mode .assignment tree.written tree []) :
    ∀ piece ∈ trees.map writtenPiece,
      Phrase mode .assignment piece.tokens piece.tree piece.faults := by
  intro piece member
  obtain ⟨tree, inTrees, rfl⟩ := List.mem_map.mp member
  exact each tree inTrees

theorem itemFaults_written {limited : Bool} {trees : List Expr}
    (few : limited = true → trees.length ≤ 255) :
    itemFaults limited 0 (trees.map writtenPiece) = [] := by
  refine itemFaults_eq_nil (by simpa using few) ?_
  intro piece member
  obtain ⟨tree, _, rfl⟩ := List.mem_map.mp member
  rfl

/-- What the grammar derives at all, it derives from the tokens the tree is written in. -/
theorem Phrase.of_written (phrase : Phrase .strict level tokens tree faults) :
    Phrase .strict level tree.written tree [] := by
  induction phrase with
  | inside next phrase ih => exact .inside next ih
  | assignName named equals right ih => exact .assignName named (Tag.mark_is _ _) ih
  | assignElement left opens place closes equals right ihLeft ihPlace ihRight =>
    simpa [Expr.written] using
      Phrase.assignElement ihLeft (Tag.mark_is _ "[") ihPlace closes (Tag.mark_is _ "=") ihRight
  | assignOther lenient => cases lenient
  | join joins before found after ihBefore ihAfter =>
    have node := Phrase.join joins ihBefore found ihAfter
    cases joins <;> simpa [Expr.written] using node
  | sign found operand ih => exact .sign found ih
  | @call opening closing calleeTokens listTokens callee arguments calleeFaults function opens each
      listed few closes ihFunction ihEach =>
    have few : arguments.length ≤ 255 := few rfl
    have trees : ∀ tree ∈ arguments.map Piece.tree,
        Phrase .strict .assignment tree.written tree [] := List.forall_mem_map.mpr ihEach
    have node := Phrase.call ihFunction (Tag.mark_is .leftParen "(") (phrases_written trees)
      (separated_written _) (by simpa using few) closes
    rw [itemFaults_written (by simpa using few), map_tree_written] at node
    simpa [Expr.written] using node
  | subscript left opens place closes ihLeft ihPlace =>
    simpa [Expr.written] using Phrase.subscript ihLeft (Tag.mark_is _ "[") ihPlace closes
  | number kind => exact .number rfl
  | string kind => exact .string rfl
  | falsehood found => exact .falsehood (Tag.mark_is _ _)
  | truth found => exact .truth (Tag.mark_is _ _)
  | nil found => exact .nil (Tag.mark_is _ _)
  | name found => exact .name found
  | group opens phrase closes ih => exact .group (Tag.mark_is _ _) ih (Tag.mark_is _ _)
  | array opens each listed closes ih =>
    have node := Phrase.array (Tag.mark_is .leftBracket "[")
      (phrases_written (List.forall_mem_map.mpr ih)) (separated_written _) closes
    rw [itemFaults_written (by simp), map_tree_written] at node
    simpa [Expr.written] using node

end Grammar
end Script
