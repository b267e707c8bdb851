/-
  Exact arithmetic with a division that refuses zero, and the value of an expression by it.

  An expression has no value under an assignment as soon as one divisor in it is zero there, also
  when a factor zero stands above the quotient.  The unknowns need not be the same letter.
-/
import OneUnknown.Error

namespace OneUnknown

/-- The quotient of two rationals; a zero divisor is refused. -/
def divide (a b : Rat) : Except Error Rat :=
  if b = 0 then .error .divisionByZero else .ok (a / b)

theorem divide_eq_ok_iff {a b q : Rat} : divide a b = .ok q ↔ b ≠ 0 ∧ a / b = q := by
  unfold divide
  split <;> simp_all

theorem divide_eq_error_iff {a b : Rat} {e : Error} :
    divide a b = .error e ↔ b = 0 ∧ e = .divisionByZero := by
  unfold divide
  split <;> simp_all [eq_comm]

/-- The value of an operation on two rationals. -/
def Op.apply : Op → Rat → Rat → Except Error Rat
  | add, a, b => .ok (a + b)
  | sub, a, b => .ok (a - b)
  | mul, a, b => .ok (a * b)
  | div, a, b => divide a b

namespace Monomial

/-- A monomial times `k`. -/
def scale (k : Rat) (m : Monomial) : Monomial :=
  { m with coef := k * m.coef }

/-- A monomial over `k`. -/
def divide (m : Monomial) (k : Rat) : Except Error Monomial :=
  return { m with coef := ← OneUnknown.divide m.coef k }

end Monomial

/-! ## Values -/

namespace Expr

/-- The value under an assignment of rationals to the unknowns, unless a divisor is zero. -/
def value? (env : Char → Rat) : Expr → Option Rat
  | const q => some q
  | mono m => some (m.coef * env m.name)
  | bin op l r => do (op.apply (← l.value? env) (← r.value? env)).toOption

section
variable {env env' : Char → Rat} {e l r : Expr}

theorem value?_bin (op : Op) : (bin op l r).value? env =
    (l.value? env).bind fun a => (r.value? env).bind fun b => (op.apply a b).toOption := rfl

/-- The value depends on the unknowns that occur. -/
theorem value?_congr (h : ∀ c ∈ e.occurrences, env c = env' c) : e.value? env = e.value? env' := by
  induction e with
  | const q => rfl
  | mono m => rw [value?, value?, h m.name (by simp [occurrences])]
  | bin op l r ihl ihr =>
    rw [value?_bin, value?_bin, ihl fun c hc => h c (List.mem_append_left _ hc),
      ihr fun c hc => h c (List.mem_append_right _ hc)]

/-- Without an unknown the value is the same under all assignments. -/
theorem value?_eq_of_occurrences_eq_nil (h : e.occurrences = []) :
    e.value? env = e.value? env' :=
  value?_congr fun c hc => by simp [h] at hc

end

end Expr

/-- The equation holds under an assignment: both sides have a value, and the same one. -/
def Equation.HoldsAt (env : Char → Rat) (eq : Equation) : Prop :=
  ∃ q, eq.left.value? env = some q ∧ eq.right.value? env = some q

end OneUnknown
