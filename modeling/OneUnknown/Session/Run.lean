/-
  Running a session: each line is answered before the next one is read.

  * `State.execute` gives the text shown for a command and the state after it, or nothing at the
    end of the session.
  * `Session.run` takes the lines as bytes.  It ends with the input, at `:q`, or at the first line
    that is not UTF-8; the answers given until then stand.
-/
import OneUnknown.Text.Line
import OneUnknown.Session.Command
import OneUnknown.Session.State

namespace OneUnknown

/-- The text shown for a command and the state after it; nothing if the session ends. -/
def State.execute (s : State) : Command → Option (String × State)
  | .solve equation =>
    let after := s.enter equation
    some (after.view, after)
  | .digits n =>
    let after := s.setDigits n
    some (s!"digits = {after.settings.digits}\n", after)
  | .toggleWorking =>
    let after := s.toggleWorking
    some (if after.showWorking then "démarche affichée\n" else "démarche masquée\n", after)
  | .clearResults => some ("", s.clearResults)
  | .reset => some ("", s.reset)
  | .quit => none
  | .blank => some ("", s)
  | .unknown line => some (s!"commande inconnue : {line}\n", s)

namespace Session

/-- Why a session has ended. -/
inductive Ending where
  | inputEnd
  | quit
  | notText
  deriving DecidableEq, Repr

/-- The answers of a session, one for each line answered, and how it ended. -/
structure Transcript where
  answers : List String
  final : State
  ending : Ending
  deriving DecidableEq, Repr

/-- What one line does: an answer and the state after it, or the end of the session. -/
def step (s : State) (line : List UInt8) : Except Ending (String × State) :=
  match Text.decode? line with
  | none => .error .notText
  | some text =>
    match s.execute (Command.ofLine text) with
    | none => .error .quit
    | some answered => .ok answered

/-- A session on lines of bytes. -/
def run (s : State) : List (List UInt8) → Transcript
  | [] => ⟨[], s, .inputEnd⟩
  | line :: lines =>
    match step s line with
    | .error ending => ⟨[], s, ending⟩
    | .ok (answer, after) =>
      let rest := run after lines
      { rest with answers := answer :: rest.answers }

/-- A session on a stream of bytes. -/
def onBytes (s : State) (bytes : List UInt8) : Transcript :=
  run s (Text.lines bytes)

/-- All that a session has shown. -/
def Transcript.output (t : Transcript) : String :=
  String.join t.answers

end Session

end OneUnknown
