import Script.Command.Arguments
import Script.Command.Repl
import Script.Files
import Script.Text.Quoted
import Script.Tree.Document
import Script.Tree.PrefixForm

/-! The command: what it finds around it, and what it writes on either stream before it ends with
which status. -/

namespace Script

/-- What a command does: the text of both streams and the exit status. -/
structure Effect where
  status : Nat
  printed : String
  reports : String
  deriving Repr, DecidableEq

namespace Effect

/-- The status of a unit that is refused. -/
def dataError : Nat := 65

/-- The status of a run that fails. -/
def softwareError : Nat := 70

def success (printed : String) : Effect := ⟨0, printed, ""⟩

/-- A command that cannot do its work: what it tried, and why that failed. -/
def broken (printed context cause : String) : Effect :=
  ⟨1, printed, "Error: " ++ context ++ "\n\nCaused by:\n    " ++ cause ++ "\n"⟩

def refusal (refusal : Refusal) : Effect :=
  ⟨dataError, "", Repl.reportText refusal.diagnostics⟩

end Effect

/-- The files and the standard input that a command finds, and the clock it reads. -/
structure Surroundings where
  content : String → Except FileFault (List UInt8)
  create : String → Except FileFault Unit
  input : List UInt8
  reading : Nat → Float

namespace Command

/-- What was tried of a file when it could not be read: a folder can be opened like a file, and
only reading it fails. -/
def attempt : FileFault → String
  | .isFolder => "Failed to read file "
  | _ => "Failed to open file "

/-- The text of a file, or the way in which the command ends without it. -/
def readText (around : Surroundings) (file : String) : Except Effect String :=
  match around.content file with
  | .error fault => .error (.broken "" (attempt fault ++ Quoted.encode file) fault.message)
  | .ok bytes =>
    match Utf8.decode bytes with
    | .ok text => .ok text
    | .error fault =>
      .error (.broken "" ("File " ++ Quoted.encode file ++ " is not valid UTF-8") fault.message)

/-- Shows every token on its own line, and every lexical error as a report. -/
def showTokens (text : String) : Effect :=
  let items := Token.scan text
  let faults := Token.faults items
  { status := if faults.isEmpty then 0 else Effect.dataError
    printed := String.join ((Token.good items).map (·.text ++ "\n"))
    reports := Repl.reportText (faults.map LexError.diagnostic) }

/-- Shows the tree of a program, one statement to a line or as a JSON document. -/
def showTree (json : Bool) (text : String) : Effect :=
  match (Source.text text).program? with
  | .error refusal => .refusal refusal
  | .ok program =>
    if json then .success ((Json.list (Stmt.documents program)).pretty ++ "\n")
    else .success (String.join (program.map (·.prefixForm ++ "\n")))

/-- What is shown of a run: the output, and the result or the failure that ended it. -/
def report {α : Type} (shown : Machine → α → String) : Ending α × Machine → Effect
  | (.refused refusal, _) => .refusal refusal
  | (.failed failure, machine) =>
    ⟨Effect.softwareError, machine.output.textFrom 0, Repl.reportText [failure.diagnostic]⟩
  | (.exhausted, _) => ⟨Effect.softwareError, "", ""⟩
  | (.value value, machine) => .success (machine.output.textFrom 0 ++ shown machine value)

def machine (around : Surroundings) : Machine := .fresh around.reading .unlimited

def showValue (around : Surroundings) (text : String) : Effect :=
  report (fun machine value => value.text machine.heap ++ "\n")
    ((machine around).evaluate (.text text))

def runProgram (around : Surroundings) (text : String) : Effect :=
  report (fun _ _ => "") ((machine around).run (.text text))

/-- The end of a prompt whose input is not text. -/
def unreadableInput (printed : String) : Effect :=
  .broken printed "Failed to read from stdin" "stream did not contain valid UTF-8"

def converse (around : Surroundings) : Effect :=
  let transcript := Repl.transcript (machine around) (Repl.lines around.input)
  if transcript.complete then ⟨0, transcript.printed, transcript.reports⟩
  else
    let ending := unreadableInput transcript.printed
    { ending with reports := transcript.reports ++ ending.reports }

def versionLine : String := "pulse 0.1.0\n"

def perform (around : Surroundings) : Command → Effect
  | .tokenize file => onText (readText around file) showTokens
  | .parse file json => onText (readText around file) (showTree json)
  | .evaluate file => onText (readText around file) (showValue around)
  | .run file => onText (readText around file) (runProgram around)
  | .repl => converse around
  | .version => .success versionLine
where
  onText (text : Except Effect String) (go : String → Effect) : Effect :=
    match text with
    | .ok text => go text
    | .error effect => effect

end Command

/-- Makes the log file, if there is to be one, and then performs the command. What goes into the log
is left out. It holds the text of every value that is stored in an array, which is made while the
array is borrowed; so where an array is stored into itself a command with a log breaks down, and
here it goes on. -/
def Invocation.perform (around : Surroundings) (invocation : Invocation) : Effect :=
  match invocation.log with
  | some file =>
    match around.create file with
    | .ok () => invocation.command.perform around
    | .error fault => .broken "" ("Failed to create " ++ Quoted.encode file) fault.message
  | none => invocation.command.perform around

/-- The effect of the command line; arguments that make no sense have the status of misuse. -/
def runCommandLine (around : Surroundings) (arguments : List String) : Effect :=
  match Invocation.ofArguments? arguments with
  | some invocation => invocation.perform around
  | none => ⟨2, "", "error: invalid arguments\n"⟩

end Script
