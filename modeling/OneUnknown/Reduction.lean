/-
  Reduction of one side of an equation, from the leaves to the root, told in three ways.

  * `scale k` multiplies an expression by `k`: every term of a sum, the first factor of a product,
    the dividend of a quotient.  The shape stays as it is, also for `k = 0`.
  * `mkAdd`, `mkSub`, `mkMul` and `mkDiv` put an operation on top of two reduced operands: two
    constants are computed, two monomials are added (but not subtracted), a constant factor or
    divisor is multiplied out, and anything else is kept.
  * `reduce` rebuilds a tree with them.  It fails for one reason only: a constant divisor that is
    zero.
  * `Redex op l r`: two operands that `op` does not leave side by side.  Two monomials under a
    difference are no redex, nor is a constant divided by something else.  `Reduced e`: no
    operation in `e`, at any depth, has a redex for its operands.
  * `rewrite depth` reduces both operands of an operation and applies one rule on top of them; a
    factor is distributed (`distribute`), and what comes out is reduced once more.  The rules that
    distribute call it on an expression that is no part of the one they were given, so nothing but
    `depth` bounds how far the calls nest: beyond that there is no result.
-/
import OneUnknown.Expr.Arithmetic

namespace OneUnknown.Expr

/-! ## Multiplying out -/

/-- An expression multiplied by `k`, term by term. -/
def scale (k : Rat) : Expr → Expr
  | const q => const (k * q)
  | mono m => mono (m.scale k)
  | bin .add l r => bin .add (l.scale k) (r.scale k)
  | bin .sub l r => bin .sub (l.scale k) (r.scale k)
  | bin .mul l r => bin .mul (l.scale k) r
  | bin .div l r => bin .div (l.scale k) r

/-! ## Operations on reduced operands -/

/-- `l + r`: constants are added, and so are monomials, under the name of the left one. -/
def mkAdd : Expr → Expr → Expr
  | const a, const b => const (a + b)
  | mono m, mono n => mono { m with coef := m.coef + n.coef }
  | l, r => bin .add l r

/-- `l - r`: constants are subtracted. -/
def mkSub : Expr → Expr → Expr
  | const a, const b => const (a - b)
  | l, r => bin .sub l r

/-- `l * r`: a constant factor is multiplied out. -/
def mkMul : Expr → Expr → Expr
  | const k, r => r.scale k
  | l, const k => l.scale k
  | l, r => bin .mul l r

/-- `l / r`: a constant divisor is multiplied out as its inverse, unless it is zero. -/
def mkDiv : Expr → Expr → Except Error Expr
  | l, const k => return l.scale (← divide 1 k)
  | l, r => .ok (bin .div l r)

/-- An operation on top of two reduced operands. -/
def combine : Op → Expr → Expr → Except Error Expr
  | .add, l, r => .ok (mkAdd l r)
  | .sub, l, r => .ok (mkSub l r)
  | .mul, l, r => .ok (mkMul l r)
  | .div, l, r => mkDiv l r

/-! ## Reduction -/

/-- The reduced form of an expression. -/
def reduce : Expr → Except Error Expr
  | const q => .ok (const q)
  | mono m => .ok (mono m)
  | bin op l r => do combine op (← l.reduce) (← r.reduce)

/-! ## Normal forms -/

/-- Operands on which an operation is carried out. -/
inductive Redex : Op → Expr → Expr → Prop
  /-- two constants are computed -/
  | constants {op a b} : Redex op (const a) (const b)
  /-- two monomials are added -/
  | monomials {m n} : Redex .add (mono m) (mono n)
  /-- a constant in front of a product is multiplied out -/
  | leftFactor {k r} : Redex .mul (const k) r
  /-- a constant behind a product is multiplied out -/
  | rightFactor {l k} : Redex .mul l (const k)
  /-- a constant divisor is multiplied out -/
  | divisor {l k} : Redex .div l (const k)

/-- An expression without a redex. -/
inductive Reduced : Expr → Prop
  | const {q} : Reduced (const q)
  | mono {m} : Reduced (mono m)
  | bin {op l r} : Reduced l → Reduced r → ¬ Redex op l r → Reduced (bin op l r)

/-! ## Reduction by rewriting -/

/-- An expression with the factor `k` written in front of every term of a sum, and in front of the
    left operand of a product or quotient; nothing is computed. -/
def distribute (k : Rat) : Expr → Expr
  | const q => bin .mul (const k) (const q)
  | mono m => bin .mul (const k) (mono m)
  | bin .add l r => bin .add (l.distribute k) (r.distribute k)
  | bin .sub l r => bin .sub (l.distribute k) (r.distribute k)
  | bin .mul l r => bin .mul (bin .mul (const k) l) r
  | bin .div l r => bin .div (bin .mul (const k) l) r

/-- One rule on top of two reduced operands, where `again` reduces what a factor is distributed
    over. -/
def rewriteTop (again : Expr → ExceptT Error Option Expr) :
    Op → Expr → Expr → ExceptT Error Option Expr
  | .mul, const k, bin o s t => again ((bin o s t).distribute k)
  | .mul, bin o s t, const k => again ((bin o s t).distribute k)
  | .div, bin o s t, const k => do again ((bin o s t).distribute (← divide 1 k))
  | op, const a, const b => return const (← op.apply a b)
  | .add, mono m, mono n => return mono { m with coef := m.coef + n.coef }
  | .mul, const k, mono m => return mono (m.scale k)
  | .mul, mono m, const k => return mono (m.scale k)
  | .div, mono m, const k => return mono (← m.divide k)
  | op, l, r => return bin op l r

/-- The reduced form of an expression, where at most `depth` calls are open at once. -/
def rewrite : Nat → Expr → ExceptT Error Option Expr
  | 0, _ => none
  | _ + 1, const q => return const q
  | _ + 1, mono m => return mono m
  | depth + 1, bin op l r => do
    rewriteTop (rewrite depth) op (← rewrite depth l) (← rewrite depth r)

end OneUnknown.Expr
