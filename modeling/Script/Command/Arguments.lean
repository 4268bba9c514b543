/-! The command line: what its arguments ask for. -/

namespace Script

/-- What the command line asks for. -/
inductive Command where
  | tokenize (file : String)
  | parse (file : String) (json : Bool)
  | evaluate (file : String)
  | run (file : String)
  | repl
  | version
  deriving Repr, DecidableEq

/-- A command, and the file for its log if it is to keep one. -/
structure Invocation where
  command : Command
  log : Option String
  deriving Repr, DecidableEq

/-- What one argument means, or two where an option takes its value from the next. -/
inductive Argument where
  | word (text : String)
  | log
  | logFile (name : String)
  | json
  | version
  | endOfOptions
  | unknown
  deriving Repr, DecidableEq

namespace Argument

/-- Whether a text is meant as an option; a hyphen alone is a word like any other. -/
def looksOptional (text : String) : Bool := text.toList.head? = some '-' && text != "-"

def logFileOption : String := "--log-file"

/-- The value that follows the name of an option and an equals sign. -/
def attached? (option text : String) : Option String :=
  let start := option.toList ++ ['=']
  if start.isPrefixOf text.toList then some (String.ofList (text.toList.drop start.length))
  else none

/-- The meaning of an argument that takes nothing from the next. Short options may be run together,
and of such a run only its first letter counts here, because it ends the reading. -/
def ofString (text : String) : Argument :=
  if text = "--log" then .log
  else if text = "--json" then .json
  else if text = "--version" || ['-', 'V'].isPrefixOf text.toList then .version
  else
    match attached? logFileOption text with
    | some name => .logFile name
    | none => if looksOptional text then .unknown else .word text

/-- The meanings of a list of arguments: after the end of options all are words. -/
def readAll : List String → List Argument
  | [] => []
  | [text] => [if text = "--" then .endOfOptions else ofString text]
  | text :: next :: rest =>
    if text = "--" then .endOfOptions :: (next :: rest).map .word
    else if text = logFileOption then
      (if looksOptional next then .unknown else .logFile next) :: readAll rest
    else ofString text :: readAll (next :: rest)

end Argument

/-- What is asked for the log. -/
structure LogRequest where
  wanted : Bool
  file : Option String
  deriving Repr, DecidableEq

namespace LogRequest

def absent : LogRequest := ⟨false, none⟩

/-- Asks for a log, which may be done once. -/
def want? (request : LogRequest) : Option LogRequest :=
  if request.wanted then none else some { request with wanted := true }

/-- Names the file of the log, which may be done once; the name may not be empty. -/
def name? (request : LogRequest) (file : String) : Option LogRequest :=
  if request.file.isSome || file.isEmpty then none else some { request with file := some file }

/-- What is asked before the name of a command and after it; of two files the later counts. -/
def join (before after : LogRequest) : LogRequest :=
  ⟨before.wanted || after.wanted, after.file.or before.file⟩

/-- The file of the log, if there is to be one. -/
def log (request : LogRequest) : Option String :=
  if request.wanted then some (request.file.getD "app.log") else none

end LogRequest

/-- What stands after the name of a command. -/
structure Operands where
  words : List String
  json : Bool
  log : LogRequest
  deriving Repr, DecidableEq

namespace Operands

def absent : Operands := ⟨[], false, .absent⟩

/-- Adds arguments; there is no result if one has no meaning here. -/
def add? (operands : Operands) : List Argument → Option Operands
  | [] => some operands
  | .word text :: rest =>
    if text.isEmpty then none else add? { operands with words := operands.words ++ [text] } rest
  | .log :: rest => operands.log.want?.bind fun log => add? { operands with log := log } rest
  | .logFile name :: rest =>
    (operands.log.name? name).bind fun log => add? { operands with log := log } rest
  | .json :: rest => if operands.json then none else add? { operands with json := true } rest
  | .endOfOptions :: rest => add? operands rest
  | .version :: _ => none
  | .unknown :: _ => none

/-- The command of a name, if it takes these operands. -/
def command? (operands : Operands) (name : String) : Option Command :=
  match name, operands.words, operands.json with
  | "tokenize", [file], false => some (.tokenize file)
  | "parse", [file], json => some (.parse file json)
  | "evaluate", [file], false => some (.evaluate file)
  | "run", [file], false => some (.run file)
  | "repl", [], false => some .repl
  | _, _, _ => none

end Operands

namespace Invocation

/-- Reads arguments up to the name of a command and then its operands. To ask for the version is
a command of its own, whatever else is asked. -/
def read? (log : LogRequest) : List Argument → Option Invocation
  | .version :: _ => some ⟨.version, none⟩
  | .log :: rest => log.want?.bind fun log => read? log rest
  | .logFile name :: rest => (log.name? name).bind fun log => read? log rest
  | .word name :: rest =>
    (Operands.absent.add? rest).bind fun operands =>
      (operands.command? name).map fun command => ⟨command, (log.join operands.log).log⟩
  | _ => none

def ofArguments? (arguments : List String) : Option Invocation :=
  read? .absent (Argument.readAll arguments)

end Invocation

end Script
