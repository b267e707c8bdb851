/-
  The program as a function: from its arguments and its standard input to what it writes and the
  code it ends with.

  An equation among the arguments is answered once; its view goes to the standard output, or to the
  error output with code 1 if there is no answer.  Without an equation a session is held on the
  standard input.  Arguments that are refused end the program with code 2.
-/
import OneUnknown.CommandLine.Request
import OneUnknown.Session.Run

namespace OneUnknown.CommandLine

/-! ## Texts -/

/-- The text that `--version` asks for. -/
def versionText : String :=
  "equation-qpur 0.1.0\n"

/-- The text that `--help` asks for. -/
def helpText : String :=
  "Solveur exact d’équations linéaires à une inconnue\n\n" ++
  "Usage: equation-qpur [OPTIONS] [EQUATION]\n\n" ++
  "Arguments:\n" ++
  "  [EQUATION]  Équation à résoudre, ex. \"3 * (2 + r) = 15\". " ++
  "Sans argument : session interactive\n\n" ++
  "Options:\n" ++
  "      --digits <DIGITS>          " ++
  "Chiffres de la lecture décimale (tronquée) [default: 20]\n" ++
  "      --passes-max <PASSES_MAX>  Plafond des passes du solveur [default: 16]\n" ++
  "      --demarche                 Affiche la démarche (jetons, étapes)\n" ++
  "  -h, --help                     Print help\n" ++
  "  -V, --version                  Print version\n"

/-- The text for arguments that are refused. -/
def Refusal.message (r : Refusal) : String :=
  let cause := match r with
    | unexpected argument => s!"unexpected argument '{argument}' found"
    | repeated argument => s!"the argument '{argument}' cannot be used multiple times"
    | noValue argument => s!"a value is required for '{argument}' but none was supplied"
    | badValue value argument => s!"invalid value '{value}' for '{argument}'"
    | valueOfFlag value argument =>
      s!"unexpected value '{value}' for '{argument}' found; no more were expected"
  s!"error: {cause}\n\nUsage: equation-qpur [OPTIONS] [EQUATION]\n\n" ++
    "For more information, try '--help'.\n"

/-- The line that is logged when a session meets a line that is not text. -/
def interruptedText : String :=
  "ERROR equation_qpur: session interrompue e=stream did not contain valid UTF-8\n"

/-! ## Answers -/

/-- What the program writes and the code it ends with. -/
structure Output where
  code : UInt32
  stdout : String := ""
  stderr : String := ""
  deriving DecidableEq, Repr

/-- The state that the options start from. -/
def Options.state (o : Options) : State :=
  State.start o.settings o.showWorking

/-- The answer to one equation. -/
def once (s : State) (equation : String) : Output :=
  let after := s.enter equation
  if after.hasError then { code := 1, stderr := after.view }
  else { code := 0, stdout := after.view }

/-- How the program ends after a session. -/
def afterSession (ending : Session.Ending) : Output :=
  match ending with
  | .inputEnd | .quit => { code := 0 }
  | .notText => { code := 1, stderr := interruptedText }

/-- A whole session on the standard input. -/
def session (s : State) (stdin : List UInt8) : Output :=
  let t := Session.onBytes s stdin
  { afterSession t.ending with stdout := t.output }

/-- What the program writes, given its arguments and its standard input. -/
def run (args : List String) (stdin : List UInt8) : Output :=
  match Request.ofArguments {} args with
  | .version => { code := 0, stdout := versionText }
  | .help => { code := 0, stdout := helpText }
  | .refuse reason => { code := 2, stderr := reason.message }
  | .start o =>
    match o.equation with
    | some equation => once o.state equation
    | none => session o.state stdin

end OneUnknown.CommandLine
