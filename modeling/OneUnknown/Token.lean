/-
  Tokens: one character each, with the kind under which the grammar sees it.

  An equation has nothing but one-character tokens: numbers and names are put together by the
  grammar.  `Kind.ofChar?` sorts the characters; a blank has no kind, nor has any other character
  outside `= + - * / ( ) .`, the ten ASCII digits and the letters.
-/
import OneUnknown.Text.Letter

namespace OneUnknown

/-- What the grammar sees of a token. -/
inductive Kind where
  | equal
  | plus
  | minus
  | times
  | divide
  | lparen
  | rparen
  | digit
  | dot
  | letter
  deriving DecidableEq, Repr

/-- A character with its kind. -/
structure Token where
  kind : Kind
  lexeme : Char
  deriving DecidableEq, Repr

namespace Kind

/-- The kind of a character, if it may stand in an equation. -/
def ofChar? (c : Char) : Option Kind :=
  if c = '=' then some equal
  else if c = '+' then some plus
  else if c = '-' then some minus
  else if c = '*' then some times
  else if c = '/' then some divide
  else if c = '(' then some lparen
  else if c = ')' then some rparen
  else if c = '.' then some dot
  else if c.isDigit then some digit
  else if Text.isLetter c then some letter
  else none

/-- The name of a kind, as error messages write it. -/
def name : Kind → String
  | equal => "Equal"
  | plus => "Plus"
  | minus => "Minus"
  | times => "Multiply"
  | divide => "Divide"
  | lparen => "LParen"
  | rparen => "RParen"
  | digit => "Digit"
  | dot => "Dot"
  | letter => "Letter"

/-- The kinds that a number or a name may start with. -/
def startsAtom : Kind → Bool
  | digit | dot | letter => true
  | equal | plus | minus | times | divide | lparen | rparen => false

end Kind

namespace Token

/-- The token of a character, if it has one. -/
def ofChar? (c : Char) : Option Token :=
  (Kind.ofChar? c).map (⟨·, c⟩)

/-- The token is the one of its character. -/
def Proper (t : Token) : Prop :=
  ofChar? t.lexeme = some t

instance : DecidablePred Proper := fun t => inferInstanceAs (Decidable (ofChar? t.lexeme = some t))

/-- A token as error messages write it: `RParen ')'`. -/
def describe (t : Token) : String :=
  s!"{t.kind.name} '{t.lexeme}'"

/-- The lexemes of a list of tokens, one space between neighbours. -/
def spaced (ts : List Token) : String :=
  String.intercalate " " (ts.map fun t => t.lexeme.toString)

end Token

end OneUnknown
