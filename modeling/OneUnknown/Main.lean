/-
  The program: reading arguments and lines, printing answers.

  A session is answered line by line, each answer before the next line is read; everything else is
  computed by `CommandLine.run`.
-/
import OneUnknown.CommandLine

namespace OneUnknown

/-- The bytes up to the next line feed, which is dropped, or nothing at the end of the input. -/
partial def readLine (input : IO.FS.Stream) (line : List UInt8) : IO (Option (List UInt8)) := do
  match (← input.read 1).toList with
  | [] => return if line.isEmpty then none else some line.reverse
  | b :: _ =>
    if b = Text.lineFeed then return some (Text.dropReturn line.reverse)
    else readLine input (b :: line)

/-- A session on the standard input. -/
partial def interact (input output : IO.FS.Stream) (s : State) : IO Session.Ending := do
  match ← readLine input [] with
  | none => return .inputEnd
  | some line =>
    match Session.step s line with
    | .error ending => return ending
    | .ok (answer, after) =>
      output.putStr answer
      output.flush
      interact input output after

/-- Write what the program has to say and give its code. -/
def emit (o : CommandLine.Output) : IO UInt32 := do
  (← IO.getStdout).putStr o.stdout
  (← IO.getStderr).putStr o.stderr
  return o.code

/-- The whole program. -/
def program (args : List String) : IO UInt32 := do
  match CommandLine.Request.ofArguments {} args with
  | .start { equation := none, digits, passes, showWorking } =>
    let o : CommandLine.Options := { digits, passes, showWorking }
    let ending ← interact (← IO.getStdin) (← IO.getStdout) o.state
    emit (CommandLine.afterSession ending)
  | _ => emit (CommandLine.run args [])

end OneUnknown

/-- The entry point. -/
def main (args : List String) : IO UInt32 :=
  OneUnknown.program args
