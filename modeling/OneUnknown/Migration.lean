/-
  Migration: the monomials of an equation go to its left side, the constants to its right side,
  and a term that changes sides changes its sign.

  * `Expr.terms` flattens the sums and differences at the top of an expression into signed terms,
    from left to right; the right operand of a difference counts with the opposite sign.  A product
    or quotient met on the way is refused as not linear.
  * `Equation.migrate` adds the monomials of both sides on the left and the constants on the right,
    where zero stands if there is none.
-/
import OneUnknown.Error

namespace OneUnknown

/-! ## Signed terms -/

/-- The sign that a term counts with. -/
inductive Sign where
  | plus
  | minus
  deriving DecidableEq, Repr

/-- The opposite sign. -/
def Sign.flip : Sign → Sign
  | plus => minus
  | minus => plus

/-- One term of a sum. -/
inductive Term where
  | const (q : Rat)
  | mono (m : Monomial)
  deriving DecidableEq, Repr

namespace Term

instance : Neg Term where
  neg
    | const q => const (-q)
    | mono m => mono (-m)

/-- A term under a sign. -/
def signed : Sign → Term → Term
  | .plus, t => t
  | .minus, t => -t

/-- The value of a constant term. -/
def const? : Term → Option Rat
  | const q => some q
  | mono _ => none

/-- The monomial of a term with the unknown. -/
def mono? : Term → Option Monomial
  | const _ => none
  | mono m => some m

end Term

/-- The terms of an expression under a sign, from left to right. -/
def Expr.terms (s : Sign) : Expr → Except Error (List Term)
  | const q => .ok [Term.signed s (.const q)]
  | mono m => .ok [Term.signed s (.mono m)]
  | bin .add l r => return (← l.terms s) ++ (← r.terms s)
  | bin .sub l r => return (← l.terms s) ++ (← r.terms s.flip)
  | bin .mul l r => .error (.nonLinearTerm (bin .mul l r))
  | bin .div l r => .error (.nonLinearTerm (bin .div l r))

/-! ## Moving terms -/

/-- The sum of `first` and `others`, grouped from the left. -/
def Expr.sum (first : Expr) (others : List Expr) : Expr :=
  others.foldl (.bin .add) first

namespace Equation

/-- The monomials of both sides, those of the right side with the opposite sign. -/
def movedMonomials (left right : List Term) : List Monomial :=
  left.filterMap Term.mono? ++ (right.filterMap Term.mono?).map (- ·)

/-- The constants of both sides, those of the left side with the opposite sign. -/
def movedConstants (left right : List Term) : List Rat :=
  (left.filterMap Term.const?).map (- ·) ++ right.filterMap Term.const?

/-- The sum of some constants, zero if there is none. -/
def constantSide : List Rat → Expr
  | [] => .const 0
  | q :: qs => Expr.sum (.const q) (qs.map .const)

/-- The monomials on the left and the constants on the right, given the terms of both sides. -/
def gather (left right : List Term) : Except Error Equation :=
  match movedMonomials left right with
  | [] => .error .noUnknown
  | m :: ms =>
    .ok ⟨Expr.sum (.mono m) (ms.map .mono), constantSide (movedConstants left right)⟩

/-- The equation with its monomials on the left and its constants on the right. -/
def migrate (eq : Equation) : Except Error Equation := do
  gather (← eq.left.terms .plus) (← eq.right.terms .plus)

end Equation

end OneUnknown
