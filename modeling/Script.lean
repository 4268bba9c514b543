import Script.Main
import Script.Tree.Agreement
import Script.Proofs.Parsing.Recovery
import Script.Proofs.Value.Equality
import Script.Proofs.Scope.Declaration
import Script.Proofs.Scope.Activity
import Script.Proofs.Evaluation.Effects
import Script.Proofs.Evaluation.CountingLoop
import Script.Proofs.Evaluation.DeadCode
import Script.Proofs.Session.Concatenation
import Script.Proofs.Token.Lexeme
import Script.Proofs.Session.Formed
import Script.Proofs.Parsing.EarliestFault
import Script.Proofs.Parsing.Afresh
import Script.Proofs.Parsing.MissingSemicolon
import Script.Proofs.Session.Prompt
import Script.Proofs.Scope.Lookup
import Script.Proofs.Evaluation.Aliasing
import Script.Proofs.Value.Layout
import Script.Proofs.Token.Blanking
import Script.Proofs.Evaluation.Repetition
import Script.Proofs.Evaluation.Wrapping
import Script.Proofs.Tree.PrefixForm
