/-
  Expressions and equations in one unknown, over exact rationals.

  * An expression is a constant, a monomial (a coefficient times an unknown) or a binary
    operation; equality is equality of the trees, never of their values.
  * `Expr.negate` is the unary minus: it goes into a constant or a monomial and multiplies
    anything else by `-1`.
  * `Expr.names` and `Equation.names` list the unknowns in ascending order, each once.
-/
namespace OneUnknown

/-! ## Operations -/

/-- A binary operation. -/
inductive Op where
  | add
  | sub
  | mul
  | div
  deriving DecidableEq, Repr

namespace Op

/-- The sign of an operation. -/
def symbol : Op → Char
  | add => '+'
  | sub => '-'
  | mul => '*'
  | div => '/'

/-- How tightly an operation binds. -/
def precedence : Op → Nat
  | add | sub => 1
  | mul | div => 2

/-- The order of the operands does not matter. -/
def isCommutative : Op → Bool
  | add | mul => true
  | sub | div => false

end Op

/-! ## Expressions -/

/-- A coefficient times an unknown, which is one letter. -/
structure Monomial where
  name : Char := 'x'
  coef : Rat := 1
  deriving DecidableEq, Repr

/-- An expression: constants and monomials under binary operations. -/
inductive Expr where
  | const (q : Rat)
  | mono (m : Monomial)
  | bin (op : Op) (l r : Expr)
  deriving DecidableEq, Repr

/-- Two expressions said to be equal. -/
structure Equation where
  left : Expr
  right : Expr
  deriving DecidableEq, Repr

instance : Neg Monomial where
  neg m := { m with coef := -m.coef }

namespace Expr

/-- The unknown `name` with coefficient 1. -/
def unknown (name : Char) : Expr :=
  .mono ⟨name, 1⟩

/-- The unary minus. -/
def negate : Expr → Expr
  | const q => const (-q)
  | mono m => mono (-m)
  | bin op l r => bin .mul (const (-1)) (bin op l r)

/-- The number of operations on the longest path to a leaf. -/
def height : Expr → Nat
  | const _ => 0
  | mono _ => 0
  | bin _ l r => max l.height r.height + 1

/-- The nodes of an expression, itself among them. -/
def nodes : Expr → List Expr
  | const q => [const q]
  | mono m => [mono m]
  | bin op l r => bin op l r :: (l.nodes ++ r.nodes)

/-- The unknowns of an expression from left to right, once for each time they are written. -/
def occurrences : Expr → List Char
  | const _ => []
  | mono m => [m.name]
  | bin _ l r => l.occurrences ++ r.occurrences

end Expr

/-! ## Names -/

/-- `c` put into its place in an ascending list, unless it is there. -/
def insertName (c : Char) : List Char → List Char
  | [] => [c]
  | d :: ds =>
    if c < d then c :: d :: ds
    else if c = d then d :: ds
    else d :: insertName c ds

@[simp] theorem mem_insertName {a c : Char} {ds : List Char} :
    a ∈ insertName c ds ↔ a = c ∨ a ∈ ds := by
  induction ds with
  | nil => simp [insertName]
  | cons d ds ih =>
    simp only [insertName]
    split
    · simp
    · split
      · next h => subst h; simp
      · simp only [List.mem_cons, ih, or_left_comm]

theorem pairwise_insertName {c : Char} {ds : List Char} (h : ds.Pairwise (· < ·)) :
    (insertName c ds).Pairwise (· < ·) := by
  induction ds with
  | nil => simp [insertName]
  | cons d ds ih =>
    rw [List.pairwise_cons] at h
    simp only [insertName]
    split
    · next hc =>
      refine List.pairwise_cons.2 ⟨fun a ha => ?_, List.pairwise_cons.2 h⟩
      rcases List.mem_cons.1 ha with rfl | ha
      · exact hc
      · exact Char.lt_trans hc (h.1 a ha)
    · split
      · exact List.pairwise_cons.2 h
      · next hc hne =>
        refine List.pairwise_cons.2 ⟨fun a ha => ?_, ih h.2⟩
        rcases mem_insertName.1 ha with rfl | ha
        · exact Decidable.byContradiction fun ha =>
            hne (Char.le_antisymm (Char.not_lt.1 ha) (Char.not_lt.1 hc))
        · exact h.1 a ha

/-- The characters of a list in ascending order of code points, each once. -/
def ascending (cs : List Char) : List Char :=
  cs.foldr insertName []

@[simp] theorem mem_ascending {a : Char} {cs : List Char} : a ∈ ascending cs ↔ a ∈ cs := by
  induction cs with
  | nil => simp [ascending]
  | cons c cs ih =>
    have h : ascending (c :: cs) = insertName c (ascending cs) := rfl
    simp [h, ih]

theorem pairwise_ascending (cs : List Char) : (ascending cs).Pairwise (· < ·) := by
  induction cs with
  | nil => exact .nil
  | cons c cs ih => exact pairwise_insertName ih

/-- The unknowns of an expression in ascending order. -/
def Expr.names (e : Expr) : List Char :=
  ascending e.occurrences

/-- The unknowns of an equation in ascending order. -/
def Equation.names (eq : Equation) : List Char :=
  ascending (eq.left.occurrences ++ eq.right.occurrences)

end OneUnknown
