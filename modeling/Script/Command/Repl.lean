import Script.Session

/-! The prompt: each line of input is a unit of one session, and a line that is refused leaves no
trace but its diagnostics. -/

namespace Script.Repl

/-- The lines of a byte stream without their ends; a carriage return before a line end belongs to
it, and after the last line end there is a line only if there are bytes. -/
def lines (bytes : List UInt8) : List (List UInt8) :=
  match _found : bytes.dropWhile (· != 0x0A) with
  | [] => if bytes.isEmpty then [] else [bytes]
  | _ :: rest =>
    let line := bytes.takeWhile (· != 0x0A)
    let line := if line.getLast? = some 0x0D then line.dropLast else line
    line :: lines rest
termination_by bytes.length
decreasing_by
  have parts := congrArg List.length
    (List.takeWhile_append_dropWhile (p := (· != (0x0A : UInt8))) (l := bytes))
  simp only [_found, List.length_append, List.length_cons] at parts
  omega

def prompt : String := "> "

/-- What a line made the machine print, and what there is to report about it. -/
structure Reply where
  printed : String
  reports : List Diagnostic

/-- Runs one line. -/
def answer (machine : Machine) (line : String) : Reply × Machine :=
  let start := machine.output.written.size
  match machine.run (.text line) with
  | (.refused refusal, machine) => (⟨"", refusal.diagnostics⟩, machine)
  | (.failed failure, machine) =>
    (⟨machine.output.textFrom start, [failure.diagnostic]⟩, machine)
  | (_, machine) => (⟨machine.output.textFrom start, []⟩, machine)

/-- All that a prompt shows on its two streams, and whether it read to the end of its input. -/
structure Transcript where
  printed : String
  reports : String
  complete : Bool

def reportText (reports : List Diagnostic) : String :=
  String.join (reports.map (·.text ++ "\n"))

/-- The prompt on a list of lines; it stops at one that is not UTF-8. -/
def transcript (machine : Machine) : List (List UInt8) → Transcript
  | [] => ⟨prompt ++ "\n", "", true⟩
  | line :: rest =>
    match Utf8.decode line with
    | .error _ => ⟨prompt, "", false⟩
    | .ok line =>
      let (reply, machine) := answer machine line
      let remaining := transcript machine rest
      ⟨prompt ++ reply.printed ++ remaining.printed,
        reportText reply.reports ++ remaining.reports, remaining.complete⟩

end Script.Repl
