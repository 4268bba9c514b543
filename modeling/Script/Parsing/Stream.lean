import Script.Parsing.Statement
import Script.Token.Scan

/-! A stream of tokens that ends at its first end mark, and the two ways to parse from it. Each
parse takes up where the one before stopped and hands out all complaints of its own. -/

namespace Script

/-- A fault of the grammar and the token that is blamed for it. -/
structure ParseError where
  cause : ParseCause
  token : Token

def LexError.diagnostic (error : LexError) : Diagnostic :=
  .lexical error.line error.cause.message

def ParseError.diagnostic (error : ParseError) : Diagnostic :=
  .grammaticalAt error.token error.cause.message

/-- The tokens still to be parsed, and the end mark behind them. -/
structure TokenStream where
  pending : List Token
  last : Token
  pending_open : ∀ token ∈ pending, token.is .endOfText = false
  last_closes : last.is .endOfText = true

namespace TokenStream

/-- The end mark of a list that has none: it is on the line of the last token. -/
def missingLast (tokens : List Token) : Token :=
  ⟨.plain .endOfText, "", (tokens.getLast?.map Token.line).getD 1⟩

/-- The tokens before the first end mark; what follows it is out of reach. -/
def ofList (tokens : List Token) : TokenStream where
  pending := tokens.takeWhile (!·.is .endOfText)
  last := (tokens.find? (·.is .endOfText)).getD (missingLast tokens)
  pending_open := by
    intro token member
    have kept := List.all_eq_true.1 (List.all_takeWhile (l := tokens)) token member
    simpa using kept
  last_closes := by
    cases found : tokens.find? (·.is .endOfText) with
    | none => rfl
    | some token =>
      have closing := List.find?_some found
      simpa using closing

/-- The stream with only an end of its tokens left. -/
def leave (stream : TokenStream) (rest : List Token) (within : rest <:+ stream.pending) :
    TokenStream :=
  { stream with
    pending := rest
    pending_open := fun token member => stream.pending_open token (within.subset member) }

/-- The token that a complaint is about, which may be the end mark. -/
def blame (stream : TokenStream) (complaint : Complaint) : ParseError :=
  ⟨complaint.cause, complaint.remaining.headD stream.last⟩

/-- A result if there is nothing to complain about. -/
def conclude {α : Type} (stream : TokenStream) (result : α) (complaints : List Complaint) :
    Except (List ParseError) α :=
  if complaints.isEmpty then .ok result else .error (complaints.map stream.blame)

/-- Parses declarations up to the end mark. -/
def program (stream : TokenStream) : Except (List ParseError) (List Stmt) × TokenStream :=
  match Rule.declarations false stream.pending with
  | .accepted statements rest moved notes =>
    (stream.conclude statements notes, stream.leave rest moved.1)
  | .stopped complaint within notes =>
    (.error ((notes ++ [complaint]).map stream.blame), stream.leave complaint.remaining within)

/-- Parses one expression, which is to reach up to the end mark. -/
def expression (stream : TokenStream) : Except (List ParseError) Expr × TokenStream :=
  match Rule.expression stream.pending with
  | .accepted result rest moved notes =>
    let extra := if rest.isEmpty then [] else [Complaint.mk (.expected .endOfExpression) rest]
    (stream.conclude result (notes ++ extra), stream.leave rest moved.1)
  | .stopped complaint within notes =>
    (.error ((notes ++ [complaint]).map stream.blame), stream.leave complaint.remaining within)

end TokenStream
end Script
