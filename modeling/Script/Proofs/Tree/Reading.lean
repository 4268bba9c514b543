import Script.Proofs.Number.Written
import Script.Proofs.Session.Labels
import Script.Proofs.Token.Respacing
import Script.Proofs.Tree.Form

/-! The tree that a prefix form is read back as: tokens from their lexemes, nodes from the words at
their heads. -/

namespace Script

open Recast (unlined)

/-- The token that a word is by itself, without a line. -/
def Token.ofWord (word : String) : Token :=
  match word.toList with
  | [] => ⟨.plain .endOfText, "", 0⟩
  | first :: rest =>
    match (Scan.cut first rest).found with
    | .ok kind => ⟨kind, word, 0⟩
    | .error _ => ⟨.plain .endOfText, "", 0⟩

/-- What goes on with a word of the language is plain. -/
theorem Bracketed.isPlain_of_continues {char : Char} (continues : Scan.continuesWord char = true) :
    isPlain char = true := by
  unfold isPlain
  rw [Bool.and_eq_true, Bool.and_eq_true, bne_iff_ne, bne_iff_ne, bne_iff_ne]
  refine ⟨⟨?_, ?_⟩, ?_⟩ <;> rintro rfl <;> exact absurd continues (by decide)

theorem Bracketed.isPlain_digit {char : Char} (digit : Scan.isDigit char = true) :
    isPlain char = true :=
  isPlain_of_continues (by rw [Scan.continuesWord, digit, Bool.or_true])

namespace Token

open Scan Bracketed

variable {token : Token} {tag : Tag}

/-- A lexeme by itself is read as its token. -/
theorem ofWord_lexeme (shown : Lexeme token.lexeme.toList token.kind) :
    ofWord token.lexeme = unlined.token token := by
  unfold ofWord
  cases same : token.lexeme.toList with
  | nil => exact absurd same shown.ne_nil
  | cons first rest =>
    rw [same] at shown
    simp only [shown.cut_alone]
    rfl

/-- Whatever is no name is in one of the tables. -/
theorem listed_of_lexeme (shown : Lexeme token.lexeme.toList token.kind)
    (found : token.is tag = true) (noName : tag ≠ .identifier) :
    (token.lexeme.toList, tag) ∈ marks ∨ (token.lexeme, tag) ∈ reserved := by
  rw [Token.is_iff.mp found] at shown
  generalize same : token.lexeme.toList = chars at shown
  cases shown with
  | mark listed =>
    left
    exact listed
  | keyword listed =>
    right
    rw [String.toList_inj.mp same]
    exact listed
  | name => exact absurd rfl noName

/-- A category with one spelling has one token. -/
theorem eq_ofWord (word : String) (shown : Lexeme token.lexeme.toList token.kind)
    (found : token.is tag = true) (noName : tag ≠ .identifier)
    (marked : ∀ entry ∈ marks, entry.2 = tag → entry.1 = word.toList)
    (worded : ∀ entry ∈ reserved, entry.2 = tag → entry.1 = word) :
    unlined.token token = ofWord word := by
  have spelling : token.lexeme = word := by
    rcases listed_of_lexeme shown found noName with listed | listed
    · exact String.toList_inj.mp (marked _ listed rfl)
    · exact worded _ listed rfl
  rw [← ofWord_lexeme shown, spelling]

/-- Only the parentheses are not plain. -/
theorem plain_of_lexeme (shown : Lexeme token.lexeme.toList token.kind)
    (found : token.is tag = true) (noOpening : tag ≠ .leftParen) (noClosing : tag ≠ .rightParen) :
    ∀ char ∈ token.lexeme.toList, isPlain char = true := by
  rw [Token.is_iff.mp found] at shown
  generalize token.lexeme.toList = chars at shown
  have letter {char : Char} (begins : beginsWord char = true) : isPlain char = true :=
    isPlain_of_continues (by rw [continuesWord, begins, Bool.true_or])
  cases shown with
  | mark listed =>
    have all : ∀ entry ∈ marks, entry.2 ≠ .leftParen → entry.2 ≠ .rightParen →
        entry.1.all isPlain = true := by decide
    exact List.all_eq_true.mp (all _ listed noOpening noClosing)
  | keyword listed =>
    obtain ⟨first, rest, same, begins, continues⟩ := reserved_shape listed
    rw [same, List.forall_mem_cons]
    exact ⟨letter begins, fun char member => isPlain_of_continues (continues char member)⟩
  | name begins continues =>
    rw [List.forall_mem_cons]
    refine ⟨letter (beginsWord_iff.mpr begins), fun char member => ?_⟩
    exact isPlain_of_continues (continuesWord_iff.mpr (continues char member))

end Token

namespace Bracketed

variable (number : String → Float)

/-- A word by itself, which `number` reads if it is none of the other words. -/
def leaf (word : String) : Expr :=
  match (Token.ofWord word).kind with
  | .plain .identifier => .reference (Token.ofWord word)
  | .plain .trueKeyword => .literal (.boolean true)
  | .plain .falseKeyword => .literal (.boolean false)
  | .plain .nilKeyword => .literal .nil
  | _ => .literal (.number (number word))

/-- The nodes that begin with a name, closed by the tokens that close them in a text. -/
def named (name : String) (operands : List Expr) : Expr :=
  match name, operands with
  | "call", callee :: arguments => .call callee (.ofWord ")") arguments
  | "group", [inner] => .grouping inner
  | "array", elements => .array (.ofWord "]") elements
  | "index", [object, index] => .subscript object (.ofWord "]") index
  | "set", [object, index, value] => .store object (.ofWord "]") index value
  | _, _ => .literal .nil

/-- A compound expression by the token at its head; what is none is read as `nil`. -/
def compound (head : Token) (operands : List Expr) : Expr :=
  match head.kind, operands with
  | .plain .identifier, operands => named head.lexeme operands
  | .plain .equal, [.reference name, value] => .assign name value
  | .plain .andKeyword, [left, right] => .logical left head right
  | .plain .orKeyword, [left, right] => .logical left head right
  | _, [left, right] => .binary left head right
  | _, [right] => .unary head right
  | _, _ => .literal .nil

mutual

def expr : Bracketed → Expr
  | .word text => leaf number text
  | .list "" (.word head :: parts) => compound (.ofWord head) (exprs parts)
  | .list _ _ => .literal .nil

def exprs : List Bracketed → List Expr
  | [] => []
  | first :: rest => first.expr :: exprs rest

end

/-- A name by itself. -/
def name : Bracketed → Token
  | .word text => .ofWord text
  | .list head _ => .ofWord head

def parameters : Bracketed → List Token
  | .word _ => []
  | .list _ parts => parts.map name

mutual

/-- A statement by the word at its head; what is none is read as an empty block. -/
def stmt : Bracketed → Stmt
  | .list "" [.word ";", value] => .expression (value.expr number)
  | .list "" [.word "print", value] => .print (value.expr number)
  | .list "" [.word "var", name] => .declare name.name none
  | .list "" [.word "var", name, initial] => .declare name.name (some (initial.expr number))
  | .list "" (.word "block" :: parts) => .block (stmts parts)
  | .list "" [.word "if", condition, consequence] =>
    .branch (condition.expr number) consequence.stmt none
  | .list "" [.word "if", condition, consequence, alternative] =>
    .branch (condition.expr number) consequence.stmt (some alternative.stmt)
  | .list "" [.word "while", condition, body] => .loop (condition.expr number) body.stmt
  | .list "" (.word "fun" :: name :: parts) => .function name.name name.parameters (stmts parts)
  | .list "" [.word "return"] => .returning (.ofWord "return") none
  | .list "" [.word "return", value] =>
    .returning (.ofWord "return") (some (value.expr number))
  | _ => .block []

def stmts : List Bracketed → List Stmt
  | [] => []
  | first :: rest => first.stmt :: stmts rest

end

variable {number : String → Float}

/-- What is written of a number is read by `number`. -/
theorem leaf_of_spells {word : String} {text : List Char} {value : ℚ} {negative : Bool}
    (written : word.toList = (if negative then ['-'] else []) ++ text)
    (spells : Spells text value) :
    leaf number word = .literal (.number (number word)) := by
  obtain ⟨digit, rest, rfl, isDigit⟩ := spells.head
  unfold leaf Token.ofWord
  rw [written]
  cases negative with
  | true => rfl
  | false =>
    simp only [Bool.false_eq_true, if_false, List.nil_append, Scan.cut_digit isDigit]
    rcases Numeral.cutNumber_cases (digit :: rest) with ⟨_, _, _, _, same⟩ | ⟨_, same⟩
    · rw [same]
    · rw [same]

end Bracketed

end Script
