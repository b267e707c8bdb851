/-
  The ways in which an equation is refused, one constructor for each cause, and their messages;
  and what it takes for two computations that may be refused, one after the other, to succeed.
-/
import OneUnknown.Token
import OneUnknown.Expr.Render

namespace OneUnknown

/-- Why an equation has no answer. -/
inductive Error where
  /-- nothing is left once the blanks are dropped -/
  | emptyInput
  /-- a character that no token is made of -/
  | invalidCharacter (c : Char)
  /-- not exactly one equals sign -/
  | malformedEquation
  /-- a token where none of its kind may stand -/
  | unexpectedToken (t : Token)
  /-- the side ends where an operand is due -/
  | unexpectedEnd
  /-- no closing parenthesis where one is due -/
  | unmatchedParenthesis
  /-- a run of letters that is not one letter -/
  | invalidName (letters : String)
  /-- a run of digits and points that is not a number -/
  | invalidNumber (text : String)
  /-- more than `limit` levels of nesting -/
  | tooDeep (limit : Nat)
  /-- a divisor, or the coefficient of the unknown, is zero -/
  | divisionByZero
  /-- no unknown at all -/
  | noUnknown
  /-- several unknowns, of which `a` and `b` are the first two -/
  | multipleUnknowns (a b : Char)
  /-- a product or quotient that is not linear in the unknown -/
  | nonLinearTerm (e : Expr)
  /-- no solved form after so many passes -/
  | noProgress (passes : Nat)
  deriving DecidableEq, Repr

/-- The message shown for an error. -/
def Error.message : Error → String
  | emptyInput => "entrée vide"
  | invalidCharacter c => s!"caractère invalide : '{c}'"
  | malformedEquation => "l’équation doit avoir exactement un signe '='"
  | unexpectedToken t => s!"jeton inattendu : {t.describe}"
  | unexpectedEnd => "fin de membre inattendue : opérande attendu"
  | unmatchedParenthesis => "')' attendue"
  | invalidName letters => s!"une variable doit tenir en exactement une lettre : \"{letters}\""
  | invalidNumber text => s!"nombre invalide : \"{text}\""
  | tooDeep limit => s!"expression trop imbriquée (plus de {limit} niveaux)"
  | divisionByZero => "division par zéro"
  | noUnknown => "aucune inconnue dans l’équation"
  | multipleUnknowns a b => s!"plusieurs inconnues : '{a}' et '{b}' (une seule est permise)"
  | nonLinearTerm e => s!"terme non linéaire : {e.render}"
  | noProgress passes => s!"pas de forme résolue après {passes} passe(s)"

/-! ## Two computations, one after the other -/

section
variable {ε α β : Type} {x : Except ε α} {f : α → Except ε β}

/-- They succeed iff both do. -/
theorem bind_eq_ok_iff {b : β} : x >>= f = .ok b ↔ ∃ a, x = .ok a ∧ f a = .ok b := by
  cases x with
  | error e => simp [bind, Except.bind]
  | ok a => simp [bind, Except.bind]

/-- They fail iff the first does, or the second does on what the first gives. -/
theorem bind_eq_error_iff {e : ε} :
    x >>= f = .error e ↔ x = .error e ∨ ∃ a, x = .ok a ∧ f a = .error e := by
  cases x with
  | error e' => simp [bind, Except.bind]
  | ok a => simp [bind, Except.bind]

end

end OneUnknown
