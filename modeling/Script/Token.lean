import Script.Number.Notation

/-! Tokens: the closed set of lexical categories, what a token carries, and how it is shown. -/

namespace Script

/-- The categories whose tokens carry nothing beyond their lexeme. -/
inductive Tag where
  | leftParen | rightParen | leftBrace | rightBrace | leftBracket | rightBracket
  | comma | dot | minus | plus | semicolon | slash | star
  | bang | bangEqual | equal | equalEqual | greater | greaterEqual | less | lessEqual
  | identifier
  | andKeyword | classKeyword | elseKeyword | falseKeyword | funKeyword | forKeyword
  | ifKeyword | nilKeyword | orKeyword | printKeyword | returnKeyword | superKeyword
  | thisKeyword | trueKeyword | varKeyword | whileKeyword
  | endOfText
  deriving Repr, DecidableEq

def Tag.name : Tag → String
  | .leftParen => "LEFT_PAREN"
  | .rightParen => "RIGHT_PAREN"
  | .leftBrace => "LEFT_BRACE"
  | .rightBrace => "RIGHT_BRACE"
  | .leftBracket => "LEFT_BRACKET"
  | .rightBracket => "RIGHT_BRACKET"
  | .comma => "COMMA"
  | .dot => "DOT"
  | .minus => "MINUS"
  | .plus => "PLUS"
  | .semicolon => "SEMICOLON"
  | .slash => "SLASH"
  | .star => "STAR"
  | .bang => "BANG"
  | .bangEqual => "BANG_EQUAL"
  | .equal => "EQUAL"
  | .equalEqual => "EQUAL_EQUAL"
  | .greater => "GREATER"
  | .greaterEqual => "GREATER_EQUAL"
  | .less => "LESS"
  | .lessEqual => "LESS_EQUAL"
  | .identifier => "IDENTIFIER"
  | .andKeyword => "AND"
  | .classKeyword => "CLASS"
  | .elseKeyword => "ELSE"
  | .falseKeyword => "FALSE"
  | .funKeyword => "FUN"
  | .forKeyword => "FOR"
  | .ifKeyword => "IF"
  | .nilKeyword => "NIL"
  | .orKeyword => "OR"
  | .printKeyword => "PRINT"
  | .returnKeyword => "RETURN"
  | .superKeyword => "SUPER"
  | .thisKeyword => "THIS"
  | .trueKeyword => "TRUE"
  | .varKeyword => "VAR"
  | .whileKeyword => "WHILE"
  | .endOfText => "EOF"

/-- Every tag, in the order of declaration. -/
def Tag.all : List Tag :=
  [.leftParen, .rightParen, .leftBrace, .rightBrace, .leftBracket, .rightBracket,
    .comma, .dot, .minus, .plus, .semicolon, .slash, .star,
    .bang, .bangEqual, .equal, .equalEqual, .greater, .greaterEqual, .less, .lessEqual,
    .identifier,
    .andKeyword, .classKeyword, .elseKeyword, .falseKeyword, .funKeyword, .forKeyword,
    .ifKeyword, .nilKeyword, .orKeyword, .printKeyword, .returnKeyword, .superKeyword,
    .thisKeyword, .trueKeyword, .varKeyword, .whileKeyword, .endOfText]

theorem Tag.mem_all (tag : Tag) : tag ∈ Tag.all := by cases tag <;> decide

def Tag.ofName? (name : String) : Option Tag := Tag.all.find? (·.name == name)

/-- The category of a token, with the decoded value of a literal. -/
inductive Kind where
  | string (text : String)
  | number (value : Float)
  | plain (tag : Tag)

namespace Kind

def name : Kind → String
  | .string _ => "STRING"
  | .number _ => "NUMBER"
  | .plain tag => tag.name

/-- The category of a token that carries nothing. -/
def tag? : Kind → Option Tag
  | .plain tag => some tag
  | _ => none

/-- Categories agree whatever literal they carry. -/
def agrees : Kind → Kind → Bool
  | .string _, .string _ => true
  | .number _, .number _ => true
  | .plain first, .plain second => first == second
  | _, _ => false

theorem agrees_refl (kind : Kind) : kind.agrees kind = true := by cases kind <;> simp [agrees]

theorem agrees_comm (first second : Kind) : first.agrees second = second.agrees first := by
  cases first <;> cases second <;> simp [agrees, Bool.beq_comm]

end Kind

/-- One lexeme of source text; `line` counts from 1. -/
structure Token where
  kind : Kind
  lexeme : String
  line : Nat

namespace Token

def is (token : Token) (tag : Tag) : Bool := token.kind.tag? == some tag

/-- Tokens agree in category, lexeme and line; the value of a literal does not count. -/
def agrees (first second : Token) : Bool :=
  first.kind.agrees second.kind && first.lexeme == second.lexeme && first.line == second.line

/-- Whole literals below 2⁶³ end in a zero fraction, and a zero shows no sign. -/
def numberStyle : NumberStyle :=
  { infinity := "inf", wholeSuffix := ".0", wholeLimit := some (Nat.pow 2 63), signedZero := false }

/-- Category, lexeme and literal value, with a placeholder for a missing one. -/
def text (token : Token) : String :=
  let literal := match token.kind with
    | .string text => text
    | .number value => numberStyle.write value
    | .plain _ => "null"
  token.kind.name ++ " " ++ token.lexeme ++ " " ++ literal

end Token
end Script
