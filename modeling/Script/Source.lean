import Script.Parsing.Stream

/-! Units of source: a text, or tokens already made. A unit with any lexical or grammatical
fault is refused as a whole, with all of its faults. -/

namespace Script

inductive Source where
  | text (text : String)
  | tokens (tokens : List Token)

/-- The faults for which a unit is refused, each list in the order of the text. -/
structure Refusal where
  lexical : List LexError
  grammatical : List ParseError

def Refusal.diagnostics (refusal : Refusal) : List Diagnostic :=
  refusal.lexical.map LexError.diagnostic ++ refusal.grammatical.map ParseError.diagnostic

/-- A scanned item, if it is a token. -/
def Token.good? : Except LexError Token → Option Token
  | .ok token => some token
  | .error _ => none

/-- A scanned item, if it is an error. -/
def Token.fault? : Except LexError Token → Option LexError
  | .ok _ => none
  | .error error => some error

/-- The tokens among scanned items. -/
def Token.good (items : List (Except LexError Token)) : List Token := items.filterMap Token.good?

/-- The errors among scanned items. -/
def Token.faults (items : List (Except LexError Token)) : List LexError :=
  items.filterMap Token.fault?

namespace Source

/-- The tokens of a unit and its lexical errors. -/
def scanned : Source → List Token × List LexError
  | .text content =>
    let items := Token.scan content
    (Token.good items, Token.faults items)
  | .tokens given => (given, [])

/-- A result is given out only if there is no fault of either kind. -/
def accept {α : Type} (lexical : List LexError) :
    Except (List ParseError) α → Except Refusal α
  | .ok result => if lexical.isEmpty then .ok result else .error ⟨lexical, []⟩
  | .error grammatical => .error ⟨lexical, grammatical⟩

/-- The unit as a list of statements. -/
def program? (source : Source) : Except Refusal (List Stmt) :=
  let (good, lexical) := source.scanned
  accept lexical (TokenStream.ofList good).program.1

/-- The unit as a single expression. -/
def expression? (source : Source) : Except Refusal Expr :=
  let (good, lexical) := source.scanned
  accept lexical (TokenStream.ofList good).expression.1

end Source
end Script
