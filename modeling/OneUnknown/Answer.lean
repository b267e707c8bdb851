/-
  From the text of an equation to its answer: tokens, equation, solution, decimal reading.

  Blanks are dropped wherever they stand; every other character becomes a token or is refused.
  An `Answer` has the solution, its exact written form, its decimal reading and the working, that
  is, the lines which show how it was found.
-/
import OneUnknown.Grammar.Descent
import OneUnknown.Resolution
import OneUnknown.Settings

namespace OneUnknown

/-! ## From text to tokens -/

namespace Token

/-- The token of a character that is not blank. -/
def ofChar (c : Char) : Except Error Token :=
  match ofChar? c with
  | some t => .ok t
  | none => .error (.invalidCharacter c)

/-- The tokens of a list of characters; the first character without a token is reported, and only
    then that there is none. -/
def scan (cs : List Char) : Except Error (List Token) := do
  let ts ← (cs.filter fun c => !Text.isBlank c).mapM ofChar
  if ts.isEmpty then throw .emptyInput else pure ts

/-- Scanning sees no blank. -/
theorem scan_filter (cs : List Char) :
    scan (cs.filter fun c => !Text.isBlank c) = scan cs := by
  simp [scan]

end Token

/-! ## From tokens to an answer -/

/-- The working of an answer, line by line. -/
structure Working where
  tokens : String := ""
  before : String := ""
  steps : List String := []
  note : String := ""
  deriving DecidableEq, Repr

/-- What is shown for an equation that has a solution. -/
structure Answer where
  exact : String
  reading : String
  working : Working
  solution : Solution
  deriving DecidableEq, Repr

namespace Answer

/-- The last line of every working. -/
def note : String :=
  "Pipeline: jetons → équation → (réduction → migration)* → forme résolue → lecture."

/-- The answer made of a resolution. -/
def ofResolution (digits : Nat) (tokens : List Token) (eq : Equation) (r : Resolution) :
    Answer where
  exact := r.solution.equation.render
  reading := String.ofList (Decimal.reading r.solution.value digits)
  working :=
    { tokens := Token.spaced tokens
      before := eq.render
      steps := r.steps.map Step.render
      note := note }
  solution := r.solution

/-- The answer to a text. -/
def ofText (s : Settings) (text : String) : Except Error Answer := do
  let tokens ← Token.scan text.toList
  let eq ← Equation.ofTokens tokens
  let r ← eq.solve s.passes
  return ofResolution s.digits tokens eq r

end Answer

end OneUnknown
