import Script.Token

/-! Source text cut into tokens. A character that begins no token is reported and
skipped, so that one pass reports every fault; the last item is always the end of the text. -/

namespace Script

/-- Why a stretch of text is no token. -/
inductive LexCause where
  | unexpected (char : Char)
  | unterminatedString
  deriving Repr, DecidableEq

def LexCause.message : LexCause → String
  | .unexpected char => "Unexpected character: " ++ String.singleton char
  | .unterminatedString => "Unterminated string."

structure LexError where
  cause : LexCause
  line : Nat
  deriving Repr, DecidableEq

namespace Scan

def isDigit (char : Char) : Bool := '0' ≤ char && char ≤ '9'

def beginsWord (char : Char) : Bool :=
  ('a' ≤ char && char ≤ 'z') || ('A' ≤ char && char ≤ 'Z') || char == '_'

def continuesWord (char : Char) : Bool := beginsWord char || isDigit char

def isBlank (char : Char) : Bool := char == ' ' || char == '\r' || char == '\t'

/-- The categories spelled by one character that begins no longer lexeme. -/
def mark? : Char → Option Tag
  | '(' => some .leftParen
  | ')' => some .rightParen
  | '\x7b' => some .leftBrace
  | '\x7d' => some .rightBrace
  | '[' => some .leftBracket
  | ']' => some .rightBracket
  | ',' => some .comma
  | '.' => some .dot
  | '-' => some .minus
  | '+' => some .plus
  | ';' => some .semicolon
  | '*' => some .star
  | '/' => some .slash
  | _ => none

/-- The categories of a character standing alone and before an equals sign. -/
def equalsPair? : Char → Option (Tag × Tag)
  | '!' => some (.bang, .bangEqual)
  | '=' => some (.equal, .equalEqual)
  | '<' => some (.less, .lessEqual)
  | '>' => some (.greater, .greaterEqual)
  | _ => none

/-- The reserved words; the function keyword has two spellings. -/
def keywords : List (String × Tag) :=
  [("and", .andKeyword), ("class", .classKeyword), ("else", .elseKeyword),
    ("false", .falseKeyword), ("for", .forKeyword), ("fun", .funKeyword),
    ("function", .funKeyword), ("if", .ifKeyword), ("nil", .nilKeyword), ("or", .orKeyword),
    ("print", .printKeyword), ("return", .returnKeyword), ("super", .superKeyword),
    ("this", .thisKeyword), ("true", .trueKeyword), ("var", .varKeyword),
    ("while", .whileKeyword)]

def wordTag (word : String) : Tag := (keywords.lookup word).getD .identifier

/-- The whole number that a row of digits spells. -/
def digitsValue (digits : List Char) : Nat :=
  digits.foldl (fun value digit => value * 10 + (digit.toNat - '0'.toNat)) 0

/-- The double nearest to a decimal with the given digits before and after its point. -/
def numberValue (whole fraction : List Char) : Float :=
  Decimal.toFloat ⟨digitsValue (whole ++ fraction), -(fraction.length : Int)⟩

/-- What stands at the head of a text, the characters it spans, and the text after it. -/
structure Cut where
  found : Except LexCause Kind
  span : List Char
  rest : List Char

/-- A quoted text runs to the next quote, over line ends if need be. -/
def cutString (text : List Char) : Cut :=
  let body := text.takeWhile (· != '"')
  match text.dropWhile (· != '"') with
  | [] => ⟨.error .unterminatedString, '"' :: text, []⟩
  | quote :: rest => ⟨.ok (.string (String.ofList body)), '"' :: (body ++ [quote]), rest⟩

/-- Digits, and a point with more digits if it has one on both sides. -/
def cutNumber (text : List Char) : Cut :=
  let whole := text.takeWhile isDigit
  match text.dropWhile isDigit with
  | '.' :: digit :: rest =>
    if isDigit digit then
      let fraction := (digit :: rest).takeWhile isDigit
      ⟨.ok (.number (numberValue whole fraction)), whole ++ '.' :: fraction,
        (digit :: rest).dropWhile isDigit⟩
    else ⟨.ok (.number (numberValue whole [])), whole, '.' :: digit :: rest⟩
  | rest => ⟨.ok (.number (numberValue whole [])), whole, rest⟩

def cutWord (text : List Char) : Cut :=
  let word := text.takeWhile continuesWord
  ⟨.ok (.plain (wordTag (String.ofList word))), word, text.dropWhile continuesWord⟩

/-- The item at the head of a text that begins with `first` and with no trivia. -/
def cut (first : Char) (rest : List Char) : Cut :=
  match mark? first, equalsPair? first with
  | some tag, _ => ⟨.ok (.plain tag), [first], rest⟩
  | none, some (single, double) =>
    match rest with
    | '=' :: after => ⟨.ok (.plain double), [first, '='], after⟩
    | _ => ⟨.ok (.plain single), [first], rest⟩
  | none, none =>
    if first = '"' then cutString rest
    else if isDigit first then cutNumber (first :: rest)
    else if beginsWord first then cutWord (first :: rest)
    else ⟨.error (.unexpected first), [first], rest⟩

private theorem length_takeWhile_add (keep : Char → Bool) (text : List Char) :
    (text.takeWhile keep).length + (text.dropWhile keep).length = text.length := by
  rw [← List.length_append, List.takeWhile_append_dropWhile]

/-- A cut loses nothing of the text. -/
theorem cut_covers (first : Char) (rest : List Char) :
    (cut first rest).span ++ (cut first rest).rest = first :: rest := by
  unfold cut
  split
  · rfl
  · split <;> rfl
  · split
    · rename_i isQuote
      have parts := List.takeWhile_append_dropWhile (p := (· != '"')) (l := rest)
      unfold cutString
      split
      · simp [isQuote]
      · rename_i quote after found
        rw [found] at parts
        simp only [List.cons_append, List.append_assoc, List.nil_append, parts, isQuote]
    · split
      · unfold cutNumber
        have parts := List.takeWhile_append_dropWhile (p := isDigit) (l := first :: rest)
        split
        · rename_i digit after found
          have fraction := List.takeWhile_append_dropWhile (p := isDigit) (l := digit :: after)
          rw [found] at parts
          split
          · simp only [List.append_assoc, List.cons_append, fraction, parts]
          · exact parts
        · exact parts
      · split
        · exact List.takeWhile_append_dropWhile
        · rfl

private theorem length_dropWhile_le (keep : Char → Bool) (text : List Char) :
    (text.dropWhile keep).length ≤ text.length := by
  have := length_takeWhile_add keep text
  omega

/-- A cut takes at least one character. -/
theorem cut_rest_length (first : Char) (rest : List Char) :
    (cut first rest).rest.length ≤ rest.length := by
  have total := congrArg List.length (cut_covers first rest)
  have taken : (cut first rest).span ≠ [] := by
    unfold cut
    split
    · simp
    · split <;> simp
    · split
      · unfold cutString
        split <;> simp
      · split
        · rename_i digit
          unfold cutNumber
          split
          · split <;> simp [digit]
          · simp [digit]
        · split
          · rename_i letter
            simp [cutWord, continuesWord, letter]
          · simp
  have positive := List.length_pos_iff.2 taken
  simp only [List.length_append, List.length_cons] at total
  omega

/-- The text after blanks, line ends and comments, and the line it starts on. -/
def skipTrivia (line : Nat) : List Char → Nat × List Char
  | [] => (line, [])
  | '\n' :: rest => skipTrivia (line + 1) rest
  | '/' :: '/' :: rest => skipTrivia line (rest.dropWhile (· != '\n'))
  | char :: rest => if isBlank char then skipTrivia line rest else (line, char :: rest)
  termination_by text => text.length
  decreasing_by
    · simp
    · have := length_takeWhile_add (· != '\n') rest
      simp only [List.length_cons]
      omega
    · simp

theorem skipTrivia_length (line : Nat) (text : List Char) :
    (skipTrivia line text).2.length ≤ text.length := by
  fun_induction skipTrivia line text with
  | case1 => simp
  | case2 _ _ ih => simp only [List.length_cons]; omega
  | case3 line rest ih =>
    have := length_dropWhile_le (· != '\n') rest
    simp only [List.length_cons]
    omega
  | case4 _ _ _ _ _ _ ih => simp only [List.length_cons]; omega
  | case5 => simp

/-- A reported stretch of the text and the line it ends on. -/
structure Piece where
  found : Except LexCause Kind
  span : List Char
  line : Nat

/-- The pieces of a text that starts on `line`, the end of the text last. -/
def pieces (line : Nat) (text : List Char) : List Piece :=
  match _trimmed : skipTrivia line text with
  | (last, []) => [⟨.ok (.plain .endOfText), [], last⟩]
  | (start, first :: rest) =>
    let next := cut first rest
    let stop := start + next.span.count '\n'
    ⟨next.found, next.span, stop⟩ :: pieces stop next.rest
  termination_by text.length
  decreasing_by
    have kept := skipTrivia_length line text
    have taken := cut_rest_length first rest
    simp only [_trimmed, List.length_cons] at kept
    omega

theorem pieces_eq (line : Nat) (text : List Char) :
    pieces line text =
      match skipTrivia line text with
      | (last, []) => [⟨.ok (.plain .endOfText), [], last⟩]
      | (start, first :: rest) =>
        let next := cut first rest
        let stop := start + next.span.count '\n'
        ⟨next.found, next.span, stop⟩ :: pieces stop next.rest := by
  rw [pieces]
  split <;> rename_i trimmed <;> rw [trimmed]

def Piece.item (piece : Piece) : Except LexError Token :=
  match piece.found with
  | .ok kind => .ok ⟨kind, String.ofList piece.span, piece.line⟩
  | .error cause => .error ⟨cause, piece.line⟩

end Scan

/-- The tokens and lexical errors of a text, in order. -/
def Token.scan (text : String) : List (Except LexError Token) :=
  (Scan.pieces 1 text.toList).map Scan.Piece.item

end Script
