/-
  The lines of a session: commands after a colon, equations, and blank lines.

  Blanks at the ends of a line do not count.  `:digits` takes one number, which is written in ASCII
  digits after an optional plus sign and fits in 64 bits (`count?`); the other commands stand
  alone.  A line with a colon that is no command is kept as it was written.
-/
import OneUnknown.Text.Line

namespace OneUnknown

/-- What a line asks for. -/
inductive Command where
  | solve (equation : String)
  | digits (n : Nat)
  | toggleWorking
  | clearResults
  | reset
  | quit
  | blank
  | unknown (line : String)
  deriving DecidableEq, Repr

/-! ## Counts -/

/-- The number written by ASCII digits, of which there is at least one, if it fits in 64 bits. -/
def digits64? (cs : List Char) : Option Nat :=
  let n := Nat.ofDigitChars 10 cs 0
  if cs ≠ [] ∧ cs.all Char.isDigit ∧ n < UInt64.size then some n else none

/-- A count: digits after an optional plus sign. -/
def count? : List Char → Option Nat
  | '+' :: cs => digits64? cs
  | cs => digits64? cs

/-! ## Commands -/

namespace Command

/-- The command made of the words behind a colon. -/
def ofWords? : List String → Option Command
  | ["digits", n] => (count? n.toList).map digits
  | ["demarche"] => some toggleWorking
  | ["clr"] => some clearResults
  | ["ac"] => some reset
  | ["q"] => some quit
  | _ => none

/-- What a line asks for once its ends are trimmed. -/
def ofTrimmed : List Char → Command
  | [] => blank
  | ':' :: cs =>
    (ofWords? ((Text.words cs).map String.ofList)).getD (unknown (String.ofList (':' :: cs)))
  | cs => solve (String.ofList cs)

/-- What a line asks for. -/
def ofLine (line : String) : Command :=
  ofTrimmed (Text.trim line.toList)

end Command

end OneUnknown
