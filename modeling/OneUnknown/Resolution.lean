/-
  Solving an equation in one unknown, step by step.

  A pass reduces both sides.  If a monomial faces a constant then, the equation is solved by one
  division; otherwise its terms migrate and the next pass begins.  An equation without an unknown,
  or with several, is refused before the first pass.

  * `Equation.solve passes` makes at most `passes` passes.
  * A `Resolution` has the solution and every equation on the way to it.
-/
import OneUnknown.Reduction
import OneUnknown.Migration

namespace OneUnknown

/-! ## Solutions -/

/-- The value of the unknown. -/
structure Solution where
  name : Char
  value : Rat
  deriving DecidableEq, Repr

/-- The solution as an equation, `name = value`. -/
def Solution.equation (s : Solution) : Equation :=
  ⟨.unknown s.name, .const s.value⟩

/-- What a step of the working has done. -/
inductive StepKind where
  | reduction
  | migration
  | solution
  deriving DecidableEq, Repr

/-- The name of a step in the working. -/
def StepKind.name : StepKind → String
  | reduction => "réduction"
  | migration => "migration"
  | solution => "solution"

/-- One line of the working. -/
structure Step where
  kind : StepKind
  equation : Equation
  deriving DecidableEq, Repr

/-- A step as the working shows it. -/
def Step.render (s : Step) : String :=
  s!"{s.kind.name} : {s.equation.render}"

/-- A solution and the steps that lead to it. -/
structure Resolution where
  solution : Solution
  steps : List Step
  deriving DecidableEq, Repr

/-! ## Passes -/

namespace Equation

/-- There is exactly one unknown. -/
def checkUnknown (eq : Equation) : Except Error Unit :=
  match eq.names with
  | [] => .error .noUnknown
  | [_] => .ok ()
  | a :: b :: _ => .error (.multipleUnknowns a b)

/-- Both sides reduced, the left one first. -/
def reduce (eq : Equation) : Except Error Equation :=
  return ⟨← eq.left.reduce, ← eq.right.reduce⟩

/-- A monomial that faces a constant, whichever side it is on. -/
def isolated? : Equation → Option (Monomial × Rat)
  | ⟨.mono m, .const b⟩ => some (m, b)
  | ⟨.const b, .mono m⟩ => some (m, b)
  | _ => none

/-- The solution of `m = b`; a zero coefficient is refused. -/
def isolate (m : Monomial) (b : Rat) : Except Error Solution :=
  return ⟨m.name, ← divide b m.coef⟩

/-- The last `left` of `limit` passes. -/
def runPasses (limit : Nat) : Nat → Equation → Except Error Resolution
  | 0, _ => .error (.noProgress limit)
  | left + 1, eq => do
    let reduced ← eq.reduce
    match reduced.isolated? with
    | some (m, b) =>
      let s ← isolate m b
      return ⟨s, [⟨.reduction, reduced⟩, ⟨.solution, s.equation⟩]⟩
    | none =>
      let moved ← reduced.migrate
      if moved = reduced then .error (.noProgress (limit - left))
      else
        let r ← runPasses limit left moved
        return { r with steps := ⟨.reduction, reduced⟩ :: ⟨.migration, moved⟩ :: r.steps }

/-- The solution of an equation in one unknown, within a number of passes. -/
def solve (passes : Nat) (eq : Equation) : Except Error Resolution := do
  eq.checkUnknown
  eq.runPasses passes passes

end Equation

end OneUnknown
