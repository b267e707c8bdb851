/-
  The written form of expressions and equations: infix, one space around an operation, and a
  parenthesis only where reading would go astray without it.

  * A rational is written `n` or `n/d`, and a negative constant always stands in parentheses:
    `(-6/5)`.
  * A monomial is its coefficient, left out when it is 1, then its name: `x`, `-1w`, `1/2b`.
  * An operand takes parentheses when it is written with a weaker operation than the one above
    it, or with an equally strong one at the right of a `-` or a `/` (`needsParens`).  A fraction
    `n/d` counts as a division.
-/
import OneUnknown.Expr.Basic

namespace OneUnknown

/-! ## Numbers -/

/-- An integer in decimal digits, after a minus sign if it is negative. -/
def integerText (n : Int) : List Char :=
  if n < 0 then '-' :: Nat.toDigits 10 n.natAbs else Nat.toDigits 10 n.natAbs

/-- A rational in lowest terms: `n`, or `n/d` if it is not an integer. -/
def rationalText (q : Rat) : List Char :=
  if q.den = 1 then integerText q.num else integerText q.num ++ '/' :: Nat.toDigits 10 q.den

/-! ## Expressions -/

/-- A coefficient and its name; a coefficient of 1 is not written. -/
def Monomial.text (m : Monomial) : List Char :=
  if m.coef = 1 then [m.name] else rationalText m.coef ++ [m.name]

namespace Expr

/-- The precedence of the operation that an expression is written with at its top, if it is
    written with one and not in parentheses of its own. -/
def writtenPrecedence? : Expr → Option Nat
  | const q => if q.den ≠ 1 ∧ 0 ≤ q then some Op.div.precedence else none
  | mono _ => none
  | bin op _ _ => some op.precedence

/-- The side of an operand. -/
inductive Side where
  | left
  | right
  deriving DecidableEq, Repr

/-- The operand `e` at one side of `op` is written in parentheses. -/
def needsParens (op : Op) (side : Side) (e : Expr) : Bool :=
  match e.writtenPrecedence? with
  | none => false
  | some p =>
    decide (p < op.precedence) ||
      (decide (p = op.precedence) && !op.isCommutative && decide (side = .right))

/-- `cs`, in parentheses if `parens` says so. -/
def enclose (parens : Bool) (cs : List Char) : List Char :=
  if parens then '(' :: (cs ++ [')']) else cs

/-- The written form of an expression. -/
def text : Expr → List Char
  | const q => enclose (decide (q < 0)) (rationalText q)
  | mono m => m.text
  | bin op l r =>
    enclose (needsParens op .left l) l.text ++
      ' ' :: op.symbol :: ' ' :: enclose (needsParens op .right r) r.text

/-- The written form of an expression, as a string. -/
def render (e : Expr) : String :=
  String.ofList e.text

end Expr

/-- The two sides with ` = ` between them. -/
def Equation.text (eq : Equation) : List Char :=
  eq.left.text ++ ' ' :: '=' :: ' ' :: eq.right.text

/-- The written form of an equation, as a string. -/
def Equation.render (eq : Equation) : String :=
  String.ofList eq.text

end OneUnknown
