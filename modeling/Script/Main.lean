import Mathlib.Tactic.DeprecateTo
import Script.Command

/-! The command on the real files, streams and clock. -/

open Script

/-- The fault that the operating system reports; one that has no name here counts as a denial. -/
private def faultOf (error : IO.Error) : FileFault :=
  let number := match error with
    | .noFileOrDirectory _ number _ => number
    | .inappropriateType _ number _ => number
    | .invalidArgument _ number _ => number
    | _ => 0
  (FileFault.ofNumber? number.toNat).getD .denied

private def contentOf (file : String) : IO (Except FileFault (List UInt8)) := do
  try
    return .ok (← IO.FS.withFile file .read fun handle => handle.readBinToEnd).toList
  catch error => return .error (faultOf error)

private def create (file : String) : IO (Except FileFault Unit) := do
  try
    return .ok (← IO.FS.writeFile file "")
  catch error => return .error (faultOf error)

/-- The time in seconds since the epoch, down to the microsecond. A run cannot look at the clock
while it goes on, so all of its readings are that of its start. -/
private def readings : IO (Nat → Float) := do
  let now ← Std.Time.Timestamp.now
  let micros := now.toNanosecondsSinceUnixEpoch.val / 1000
  let start := Float.ofInt (micros / 1000000) + Float.ofInt (micros % 1000000) / 1000000
  return fun _ => start

/-- The file that a command reads. -/
private def fileOf : Command → Option String
  | .tokenize file | .parse file _ | .evaluate file | .run file => some file
  | .repl | .version => none

/-- Answers one line after the other as they come in, each with the clock as it is then. -/
private partial def converse (input : IO.FS.Stream) (machine : Machine) : IO UInt32 := do
  IO.print Repl.prompt
  (← IO.getStdout).flush
  let rec bytes (read : ByteArray) : IO ByteArray := do
    let next ← input.read 1
    if next.isEmpty || next[0]? == some 0x0A then return read ++ next else bytes (read ++ next)
  match Repl.lines (← bytes .empty).toList with
  | [] =>
    IO.print "\n"
    return 0
  | line :: _ =>
    match Utf8.decode line with
    | .error _ =>
      let ending := Command.unreadableInput ""
      IO.eprint ending.reports
      return ending.status.toUInt32
    | .ok line =>
      let clock := { machine.clock with reading := ← readings }
      let (reply, machine) := Repl.answer { machine with clock := clock } line
      IO.print reply.printed
      IO.eprint (Repl.reportText reply.reports)
      converse input machine

def main (arguments : List String) : IO UInt32 := do
  let invocation := Invocation.ofArguments? arguments
  let content ← match invocation.bind fun invocation => fileOf invocation.command with
    | some file => contentOf file
    | none => pure (.error .missing)
  let created ← match invocation.bind Invocation.log with
    | some file => create file
    | none => pure (.ok ())
  let around : Surroundings :=
    { content := fun _ => content
      create := fun _ => created
      input := []
      reading := ← readings }
  if (invocation.map Invocation.command) == some .repl && created.toBool then
    converse (← IO.getStdin) (Command.machine around)
  else
    let effect := runCommandLine around arguments
    IO.print effect.printed
    IO.eprint effect.reports
    return effect.status.toUInt32
