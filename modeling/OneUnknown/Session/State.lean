/-
  The state of a session: the entry, what was answered last, the settings, and what is shown of it.

  An error cuts the reading and the working off and keeps the exact form of the result before it.
  The state is in error exactly when its error text is not empty.  A reading is there to be shown
  only if `hasReading` says so, whatever its text is (`State.reading`).  What is shown is an error
  alone, or else the result and, if it is asked for, the working (`State.view`).
-/
import OneUnknown.Answer

namespace OneUnknown

/-- What a session remembers; by default, nothing. -/
structure State where
  entry : String := ""
  exact : String := ""
  readingText : String := ""
  hasReading : Bool := false
  error : String := ""
  working : Working := {}
  showWorking : Bool := false
  settings : Settings := .standard
  deriving DecidableEq, Repr

namespace State

/-- The state before the first line. -/
def start (settings : Settings) (showWorking : Bool) : State :=
  { settings, showWorking }

/-- An error is shown. -/
def hasError (s : State) : Bool :=
  !s.error.isEmpty

/-- The reading, if there is one to show. -/
def reading (s : State) : Option String :=
  if s.hasReading then some s.readingText else none

/-- Without results; the entry stays. -/
def clearResults (s : State) : State :=
  { s with exact := "", readingText := "", hasReading := false, error := "", working := {} }

/-- Without anything, and with the settings where no others are asked for. -/
def reset (s : State) : State :=
  { s.clearResults with entry := "", settings := .standard, showWorking := false }

/-- With an error; the exact form of the last result stays. -/
def setError (s : State) (message : String) : State :=
  { s with error := message, readingText := "", hasReading := false, working := {} }

/-- With a result. -/
def setResults (s : State) (exact : String) (reading : Option String) (working : Working) : State :=
  { s with
    error := "", exact, working, readingText := reading.getD "", hasReading := reading.isSome }

/-- With another number of decimal places for the results to come. -/
def setDigits (s : State) (n : Nat) : State :=
  { s with settings := s.settings.withDigits n }

/-- With the working shown if it was hidden, and hidden if it was shown. -/
def toggleWorking (s : State) : State :=
  { s with showWorking := !s.showWorking }

/-- With the answer to the entry, or the reason why there is none. -/
def solve (s : State) : State :=
  match Answer.ofText s.settings s.entry with
  | .ok a => s.setResults a.exact (some a.reading) a.working
  | .error e => s.setError e.message

/-- With a new entry, and the answer to it. -/
def enter (s : State) (equation : String) : State :=
  { s with entry := equation }.solve

end State

/-! ## The view -/

namespace Working

/-- A titled line of the working. -/
def field (title content : String) : String :=
  s!"  {title} : {content}\n"

/-- The steps, numbered from `first`. -/
def numbered (first : Nat) : List String → String
  | [] => ""
  | step :: steps => s!"    {first}. {step}\n" ++ numbered (first + 1) steps

/-- The working as it is shown. -/
def view (w : Working) : String :=
  "Démarche\n" ++ field "Jetons" w.tokens ++ field "Avant" w.before ++ "  Étapes :\n" ++
    numbered 1 w.steps ++ field "Note" w.note

end Working

namespace State

/-- The result as it is shown. -/
def viewResults (s : State) : String :=
  let reading := s.reading.getD "indisponible"
  s!"EXACT :   {s.exact}\nLecture : {reading}\n"

/-- The whole view of a state. -/
def view (s : State) : String :=
  if s.hasError then s!"Erreur : {s.error}\n"
  else s.viewResults ++ if s.showWorking then s.working.view else ""

end State

end OneUnknown
