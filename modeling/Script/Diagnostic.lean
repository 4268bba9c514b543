import Script.Text.Utf8
import Script.Token

/-! Diagnostics: what went wrong, where, and the one line that says so. -/

namespace Script

/-- A fault of any stage, in the form in which it is reported. -/
inductive Diagnostic where
  | lexical (line : Nat) (message : String)
  | grammatical (line : Nat) (location : String) (message : String)
  | runtime (line : Nat) (message : String)
  | output (message : String)
  | encoding (fault : Utf8.Fault)
  deriving Repr, DecidableEq

namespace Diagnostic

/-- How a grammatical fault names the token it blames. -/
def locationOf (token : Token) : String :=
  if token.is .endOfText then " at end" else " at '" ++ token.lexeme ++ "'"

def grammaticalAt (token : Token) (message : String) : Diagnostic :=
  .grammatical token.line (locationOf token) message

def runtimeAt (token : Token) (message : String) : Diagnostic := .runtime token.line message

def line? : Diagnostic → Option Nat
  | .lexical line _ | .grammatical line _ _ | .runtime line _ => some line
  | .output _ | .encoding _ => none

/-- The fault alone, without its line or location. -/
def message : Diagnostic → String
  | .lexical _ message | .grammatical _ _ message | .runtime _ message | .output message => message
  | .encoding fault => fault.message

/-- The fault with its line and location, where it has them. -/
def text : Diagnostic → String
  | .lexical line message => "[line " ++ toString line ++ "] Error: " ++ message
  | .grammatical line location message =>
    "[line " ++ toString line ++ "] Error" ++ location ++ ": " ++ message
  | .runtime line message => "[line " ++ toString line ++ "] Runtime Error: " ++ message
  | .output message => message
  | .encoding fault => fault.message

end Diagnostic
end Script
